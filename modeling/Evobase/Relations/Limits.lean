import Evobase.Relations.Soundness

/-!
# Limits are exact

Where nothing overflows, an evaluation succeeds exactly when the nodes and the records of its
course are within the limits. Larger limits compile the same formulas and change no value.
-/

namespace Evobase

open Foundation

theorem Numeric.ext_value {a b : Numeric} (hkind : a.kind = b.kind)
    (hvalue : a.value.map (·.val) = b.value.map (·.val)) : a = b := by
  cases a <;> cases b <;> simp_all [Numeric.kind, Numeric.value, Bounded.ext_val_iff]

/-- The limits are at least as large. -/
structure FormulaLimits.Le (limits limits' : FormulaLimits) : Prop where
  nodes : limits.maxNodes ≤ limits'.maxNodes
  depth : limits.maxDepth ≤ limits'.maxDepth
  records : limits.maxRecords ≤ limits'.maxRecords

theorem compile_of_le {spec : RawAppSpec} {list : List FormulaDefinition}
    {limits limits' : FormulaLimits} {formulas : CheckedFormulas}
    (h : CheckedFormulas.compile spec list limits = .ok formulas) (hle : limits.Le limits')
    (hvalid : limits'.validate = .ok ()) :
    ∃ formulas', CheckedFormulas.compile spec list limits' = .ok formulas' ∧
      formulas'.definitions = formulas.definitions ∧ formulas'.kinds = formulas.kinds := by
  simp only [CheckedFormulas.compile, bind_eq_ok, mapM_eq_ok_iff, Except.ok.injEq] at h ⊢
  obtain ⟨-, -, _, hlength, definitions, hfold, kinds, hkinds, rfl⟩ := h
  refine ⟨_, ⟨(), hvalid, (), hlength, definitions, hfold, kinds, ?_, rfl⟩, rfl, rfl⟩
  refine hkinds.imp fun entry kind ⟨found, hfound, hkind⟩ => ?_
  obtain ⟨found', hfound', hsame, -⟩ := checkExpression_mono hle.nodes (fun _ _ _ htype => htype)
    hle.depth le_rfl (fun _ hkey => hkey) hfound
  exact ⟨found', hfound', hsame ▸ hkind⟩

namespace CheckedFormulas

/-- An evaluation that does not overflow succeeds exactly when its course is within the limits.
It never runs out of levels, and larger limits give the same value. -/
theorem limits_exact (spec : CheckedAppSpec) (list : List FormulaDefinition)
    (limits : FormulaLimits) (formulas : CheckedFormulas)
    (hcompile : compile spec.definition list limits = .ok formulas) (store : RelationStore)
    (hshape : SemanticShape.of store.spec.definition = SemanticShape.of spec.definition)
    (table : TableId) (name : String) (expression : Expression)
    (hname : formulas.definitions.get? (toLex (table, name)) = some expression)
    (record : RecordId) (row : RawRecord) (hrow : store.records.find table record = some row) :
    ∃ visits outcome, Visits formulas.definitions store row expression visits ∧
      (∀ fuel ≥ limits.maxDepth,
        formulas.evaluate store localPreviewPolicy fuel table record name = outcome) ∧
      (outcome ≠ .error (.fail .overflow) → ((∃ value, outcome = .ok value) ↔
        visits.length ≤ limits.maxNodes ∧ 1 + recordsRead store visits ≤ limits.maxRecords)) ∧
      outcome ≠ .error (.fail .depthExceeded) ∧
      ∀ value, outcome = .ok value → ∀ limits', limits.Le limits' → limits'.validate = .ok () →
        ∃ formulas', compile spec.definition list limits' = .ok formulas' ∧
          ∀ fuel ≥ limits'.maxDepth,
            formulas'.evaluate store localPreviewPolicy fuel table record name = .ok value := by
  obtain ⟨kind, visits, outcome, hkind, -, hdenotes, hvisits, houtcome, hends⟩ :=
    exists_outcome hcompile hshape hname hrow
  obtain rfl := (of_compile hcompile).1
  refine ⟨visits, outcome, hvisits, houtcome, fun hfits => ?_, ?_, ?_⟩
  · cases hends with
    | value value hmeans hnodes hrecords => exact ⟨fun _ => ⟨hnodes, hrecords⟩, fun _ => ⟨value, rfl⟩⟩
    | overflow => exact absurd rfl hfits
    | nodes hover => exact ⟨fun ⟨_, h⟩ => (nomatch h), fun h => absurd h.1 (not_le.2 hover)⟩
    | records hover => exact ⟨fun ⟨_, h⟩ => (nomatch h), fun h => absurd h.2 (not_le.2 hover)⟩
  · cases hends <;> exact fun h => nomatch h
  · rintro value rfl limits' hle hvalid
    obtain ⟨formulas', hcompile', hdefinitions, hkinds⟩ := compile_of_le hcompile hle hvalid
    refine ⟨formulas', hcompile', ?_⟩
    obtain ⟨kind', visits', outcome', hkind', -, -, hvisits', houtcome', hends'⟩ :=
      exists_outcome hcompile' hshape (hdefinitions ▸ hname) hrow
    obtain rfl := (of_compile hcompile').1
    rw [hkinds, hkind, Option.some.injEq] at hkind'
    rw [hdefinitions] at hvisits'
    obtain rfl := hvisits.unique hvisits'
    subst hkind'
    suffices hsame : outcome' = .ok value by
      rw [← hsame]
      exact houtcome'
    cases hends with
    | value _ hmeans hnodes hrecords hrange =>
        cases hends' with
        | value value' hmeans' =>
            refine congrArg Except.ok (Numeric.ext_value (hmeans'.1.trans hmeans.1.symm) ?_)
            rw [hmeans'.2, hmeans.2, hdefinitions]
        | overflow visit hvisit hover => exact absurd (hdefinitions ▸ hover) (hrange visit hvisit)
        | nodes hover => exact absurd (hnodes.trans hle.nodes) (not_le.2 hover)
        | records hover => exact absurd (hrecords.trans hle.records) (not_le.2 hover)

/-- The total of the order visits four nodes and reads two records. -/
theorem limits_exact_shop :
    ∃ formulas visits outcome, compile shopDefinition shopFormulas .default = .ok formulas ∧
      Visits formulas.definitions orderedShop (draftOrder ⟨"rec_o", by decide⟩ "a")
        (.sum ⟨"tbl_l", by decide⟩ ⟨"fld_lo", by decide⟩ (.named "amount")) visits ∧
      (∀ fuel ≥ 24, formulas.evaluate orderedShop localPreviewPolicy fuel ⟨"tbl_o", by decide⟩
        ⟨"rec_o", by decide⟩ "total" = outcome) ∧
      (outcome ≠ .error (.fail .overflow) → ((∃ value, outcome = .ok value) ↔
        visits.length ≤ 256 ∧ 1 + recordsRead orderedShop visits ≤ 1024)) := by
  obtain ⟨formulas, hcompile⟩ := exists_eq_ok (x := compile shopDefinition shopFormulas .default)
    (by decide +kernel)
  obtain ⟨visits, outcome, hvisits, houtcome, hexact, -⟩ := limits_exact shopSpec shopFormulas
    .default formulas hcompile orderedShop rfl _ _ _
    (get?_of_compile hcompile (List.mem_cons_of_mem _ List.mem_cons_self))
    ⟨"rec_o", by decide⟩ (draftOrder ⟨"rec_o", by decide⟩ "a") (by decide +kernel)
  exact ⟨formulas, visits, outcome, hcompile, hvisits, houtcome, hexact⟩

end CheckedFormulas

end Evobase
