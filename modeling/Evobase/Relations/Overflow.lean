import Evobase.AppSpec.Projection
import Evobase.Relations.Soundness

/-!
# What overflows

Sums are added up from left to right with checked additions, so a partial sum that does not fit
is an overflow even where the complete sum fits. An evaluation with enough budget overflows
exactly when a number that its course computes does not fit, and a sum of visible rows exactly
when one of its partial sums does not.

The course of an evaluation is the list of the nodes that it visits (`Visits`), and each visit
says which numbers it computes. Another order of the rows would overflow elsewhere: the condition
is about partial sums, not about the value.
-/

namespace Evobase

open Foundation

/-- What a visible row adds to the sum of a field; a field of another type adds nothing. -/
def VisibleRecord.addend (field : FieldId) (row : VisibleRecord) : Option Int :=
  match row.values.get? field with
  | some (.integer value) | some (.money value) => some value.val
  | some .blank | some .null | none => some 0
  | _ => none

def visibleTotal (field : FieldId) (rows : List VisibleRecord) : Int :=
  (rows.map fun row => (row.addend field).getD 0).sum

section Visible

variable {field : FieldId} {rows : List VisibleRecord}

theorem yields_addVisible (sum : I64) (row : VisibleRecord) :
    Yields (fun next : I64 => row.addend field ≠ none ∧
        next.val = sum.val + (row.addend field).getD 0)
      (fun halt : Halt PolicyError => halt = .fail .invalidInput ∧ row.addend field = none ∨
        halt = .fail .overflow ∧ row.addend field ≠ none ∧
          ¬ I64.InRange (sum.val + (row.addend field).getD 0))
      (addVisible field sum row) := by
  have hnumber : ∀ value : I64, Yields
      (fun next : I64 => some value.val ≠ none ∧ next.val = sum.val + (some value.val).getD 0)
      (fun halt : Halt PolicyError => halt = .fail .invalidInput ∧ some value.val = none ∨
        halt = .fail .overflow ∧ some value.val ≠ none ∧
          ¬ I64.InRange (sum.val + (some value.val).getD 0))
      (okOr (.fail .overflow) (sum.checkedAdd value)) := by
    intro value
    cases hadd : sum.checkedAdd value with
    | none => exact .inr ⟨rfl, by simp, Bounded.checkedAdd_eq_none.1 hadd⟩
    | some next => exact ⟨by simp, Bounded.checkedAdd_eq_some.1 hadd⟩
  have hempty : (some (0 : Int) ≠ none) ∧ sum.val = sum.val + (some (0 : Int)).getD 0 :=
    ⟨by simp, (Int.add_zero _).symm⟩
  unfold addVisible VisibleRecord.addend
  cases row.values.get? field with
  | none => exact hempty
  | some value =>
      cases value with
      | integer value => exact hnumber value
      | money value => exact hnumber value
      | blank => exact hempty
      | null => exact hempty
      | _ => exact .inl ⟨rfl, rfl⟩

/-- The sum of visible rows overflows when a partial sum of numbers does, and then it does. -/
theorem foldlM_addVisible_eq_overflow_iff :
    rows.foldlM (addVisible field) I64.zero = .error (.fail .overflow) ↔
      ∃ part, part <+: rows ∧ (∀ row ∈ part, row.addend field ≠ none) ∧
        ¬ I64.InRange (visibleTotal field part) := by
  have hyields : Yields (fun sum : I64 => sum.val = visibleTotal field rows ∧
        ∀ part, part <+: rows → I64.InRange (visibleTotal field part))
      (fun halt : Halt PolicyError =>
        (halt = .fail .invalidInput ∧ ∃ pre row, pre ++ [row] <+: rows ∧ row.addend field = none ∧
          ∀ part, part <+: pre → I64.InRange (visibleTotal field part)) ∨
        halt = .fail .overflow ∧ ∃ part, part <+: rows ∧ (∀ row ∈ part, row.addend field ≠ none) ∧
          ¬ I64.InRange (visibleTotal field part))
      (rows.foldlM (addVisible field) I64.zero) := by
    refine Yields.mono (Yields.foldlM (I := fun pre (sum : I64) =>
      (∀ row ∈ pre, row.addend field ≠ none) ∧ sum.val = visibleTotal field pre ∧
        ∀ part, part <+: pre → I64.InRange (visibleTotal field part)) ?_ ?_)
      (fun sum hsum => hsum.2) fun _ => id
    · refine ⟨by simp, rfl, fun part hpart => ?_⟩
      rw [List.prefix_nil.1 hpart]
      exact I64.inRange_val I64.zero
    · intro pre row post heq sum ⟨hnumbers, hsum, hpartials⟩
      have hlast : pre ++ [row] <+: rows := ⟨post, by simp [heq]⟩
      have htotal : visibleTotal field (pre ++ [row]) = sum.val + (row.addend field).getD 0 := by
        simp [visibleTotal, hsum]
      refine (yields_addVisible sum row).mono (fun next ⟨hnumber, hnext⟩ => ?_) ?_
      · refine ⟨fun r hr => ?_, hnext.trans htotal.symm, fun part hpart => ?_⟩
        · rcases List.mem_append.1 hr with hbefore | hnew
          · exact hnumbers r hbefore
          · exact List.mem_singleton.1 hnew ▸ hnumber
        · rcases List.prefix_concat_iff.1 hpart with rfl | hbefore
          · exact (hnext.trans htotal.symm) ▸ I64.inRange_val next
          · exact hpartials part hbefore
      · rintro halt (⟨rfl, hnone⟩ | ⟨rfl, hnumber, hover⟩)
        · exact .inl ⟨rfl, pre, row, hlast, hnone, hpartials⟩
        · refine .inr ⟨rfl, pre ++ [row], hlast, fun r hr => ?_, htotal ▸ hover⟩
          rcases List.mem_append.1 hr with hbefore | hnew
          · exact hnumbers r hbefore
          · exact List.mem_singleton.1 hnew ▸ hnumber
  constructor
  · intro h
    rw [h, yields_error] at hyields
    rcases hyields with ⟨⟨⟩, -⟩ | ⟨-, hover⟩
    exact hover
  · rintro ⟨part, hpart, hnumbers, hover⟩
    cases hfold : rows.foldlM (addVisible field) I64.zero with
    | ok sum =>
        rw [hfold, yields_ok] at hyields
        exact absurd (hyields.2 part hpart) hover
    | error halt =>
        rw [hfold, yields_error] at hyields
        rcases hyields with ⟨-, pre, row, hlast, hnone, hpartials⟩ | ⟨rfl, -⟩
        · rcases List.prefix_or_prefix_of_prefix hpart hlast with hshort | hlong
          · rcases List.prefix_concat_iff.1 hshort with rfl | hbefore
            · exact absurd hnone (hnumbers row (by simp))
            · exact absurd (hpartials part hbefore) hover
          · exact absurd hnone (hnumbers row (hlong.subset (by simp)))
        · rfl

end Visible

/-- With budgets for its whole course, an evaluation overflows exactly when the course computes a
number that does not fit, a product or a partial sum; else it returns the exact value. A sum of
visible rows overflows exactly when a partial sum of numbers does not fit. -/
theorem overflow_exact :
    (∀ (spec : CheckedAppSpec) (list : List FormulaDefinition) (limits : FormulaLimits)
        (formulas : CheckedFormulas),
      CheckedFormulas.compile spec.definition list limits = .ok formulas →
      ∀ (store : RelationStore),
      SemanticShape.of store.spec.definition = SemanticShape.of spec.definition →
      ∀ (table : TableId) (name : String) (expression : Expression),
      formulas.definitions.get? (toLex (table, name)) = some expression →
      ∀ (record : RecordId) (row : RawRecord), store.records.find table record = some row →
      ∃ visits, Visits formulas.definitions store row expression visits ∧
        (visits.length ≤ limits.maxNodes → 1 + recordsRead store visits ≤ limits.maxRecords →
          ∃ outcome, (∀ fuel ≥ limits.maxDepth,
              formulas.evaluate store localPreviewPolicy fuel table record name = outcome) ∧
            (outcome = .error (.fail .overflow) ↔
              ∃ visit ∈ visits, visit.Overflows formulas.definitions store) ∧
            (outcome = .error (.fail .overflow) ∨ ∃ value, outcome = .ok value ∧
              Denotes formulas.definitions store row expression (value.value.map (·.val))))) ∧
    ∀ (host : SessionVerifier) (caller : Caller) (facts : CheckedRecords)
        (policy : OwnerRolePolicy) (field : FieldId) (projection : CheckedProjection),
      project host caller facts policy .query = .ok projection →
      field ∈ policy.rule.readFields.keys →
      (visibleSum host caller facts policy field = .error (.fail .overflow) ↔
        ∃ part, part <+: projection.rows ∧ (∀ row ∈ part, row.addend field ≠ none) ∧
          ¬ I64.InRange (visibleTotal field part)) := by
  refine ⟨?_, ?_⟩
  · intro spec list limits formulas hcompile store hshape table name expression hname record row hrow
    obtain ⟨kind, visits, outcome, -, -, hdenotes, hvisits, houtcome, hends⟩ :=
      exists_outcome hcompile hshape hname hrow
    obtain rfl := (of_compile hcompile).1
    refine ⟨visits, hvisits, fun hnodes hrecords => ⟨outcome, houtcome, ?_⟩⟩
    cases hends with
    | value value hmeans _ _ hrange =>
        refine ⟨⟨(nomatch ·), fun ⟨visit, hvisit, hover⟩ => ?_⟩, .inr ⟨value, rfl, ?_⟩⟩
        · exact absurd hover (hrange visit hvisit)
        · rw [hmeans.2]
          exact hdenotes
    | overflow visit hvisit hover => exact ⟨⟨fun _ => ⟨visit, hvisit, hover⟩, fun _ => rfl⟩, .inl rfl⟩
    | nodes hover => exact absurd hnodes (not_le.2 hover)
    | records hover => exact absurd hrecords (not_le.2 hover)
  · intro host caller facts policy field projection hproject hfield
    rw [visibleSum, hproject, ok_bind, rejectIf_bind_of_not (not_not.2 hfield),
      foldlM_addVisible_eq_overflow_iff]

/-- A ledger of entries with an amount; an entry may refer to another one. -/
def ledgerDefinition : RawAppSpec where
  version := versionTwo
  appId := ⟨"app_e", by decide⟩
  name := "E"
  tables := [{
    id := ⟨"tbl_e", by decide⟩
    name := "E"
    fields := [⟨⟨"fld_a", by decide⟩, "A", false, .integer⟩,
      ⟨fldO, "O", true, .text⟩,
      ⟨⟨"fld_r", by decide⟩, "R", false, .ref ⟨"tbl_e", by decide⟩⟩] }]
  captureRules := []
  policies := [{
    ruleId := "rule_e"
    revision := U64.one
    tableId := ⟨"tbl_e", by decide⟩
    ownerField := fldO
    readFields := .ofList [⟨"fld_a", by decide⟩]
    readRoles := .empty
    writeRoles := .empty
    submitRoles := .empty }]
  submitRules := []
  constraints := []
  stateMachines := []
  commands := []

def ledgerSpec : CheckedAppSpec := ⟨ledgerDefinition, ledgerDefinition, by decide +kernel⟩

def ledgerScope : Scope := ⟨"t", ledgerDefinition.appId, ticketScope.wellFormed⟩

/-- An entry of the first entry. -/
def ledgerEntry (id : RecordId) (amount : I64) : RawRecord where
  scope := ledgerScope
  id := id
  tableId := ⟨"tbl_e", by decide⟩
  values := .ofList [(⟨"fld_a", by decide⟩, .integer amount),
    (fldO, .text "actor_a"),
    (⟨"fld_r", by decide⟩, .ref ⟨ledgerScope, ⟨"tbl_e", by decide⟩, recA⟩)]

def ledgerFacts (second third : I64) : CheckedRecords :=
  ⟨ledgerScope, [ledgerEntry recA ⟨9223372036854775807, by decide, by decide⟩,
    ledgerEntry recB second, ledgerEntry ⟨"rec_c", by decide⟩ third]⟩

/-- The sum goes over the range with the second entry and comes back with the third. -/
def risingLedger : RelationStore :=
  ⟨ledgerSpec, ledgerFacts I64.one ⟨-1, by decide, by decide⟩,
    (ledgerFacts I64.one ⟨-1, by decide, by decide⟩).records,
    by decide +kernel⟩

/-- The same amounts in another order. -/
def fallingLedger : RelationStore :=
  ⟨ledgerSpec, ledgerFacts ⟨-1, by decide, by decide⟩ I64.one,
    (ledgerFacts ⟨-1, by decide, by decide⟩ I64.one).records,
    by decide +kernel⟩

def ledgerTotal : Expression :=
  .sum ⟨"tbl_e", by decide⟩ ⟨"fld_r", by decide⟩ (.field ⟨"fld_a", by decide⟩)

def ledgerFormulas : List FormulaDefinition := [⟨⟨"tbl_e", by decide⟩, "total", ledgerTotal⟩]

def ledgerRoot : RawRecord :=
  ledgerEntry recA ⟨9223372036854775807, by decide, by decide⟩

def ledgerPolicy : OwnerRolePolicy :=
  ⟨ledgerDefinition, ledgerDefinition.policies.head (by decide)⟩

def ledgerCaller : Caller := ⟨"credential", ledgerScope, .nativeBearer, U64.one⟩

/-- Every value of the course fits, and the sum overflows; in another order it does not. -/
theorem overflow_of_partial_sum :
    (∃ formulas visits,
      CheckedFormulas.compile ledgerDefinition ledgerFormulas .default = .ok formulas ∧
      Visits formulas.definitions risingLedger ledgerRoot ledgerTotal visits ∧
      (∀ visit ∈ visits, ∀ n,
        Denotes formulas.definitions risingLedger visit.row visit.expression (some n) →
          I64.InRange n) ∧
      formulas.evaluate risingLedger localPreviewPolicy 24 ⟨"tbl_e", by decide⟩
        ⟨"rec_a", by decide⟩ "total" = .error (.fail .overflow) ∧
      formulas.evaluate fallingLedger localPreviewPolicy 24 ⟨"tbl_e", by decide⟩
        ⟨"rec_a", by decide⟩ "total" =
          .ok (.integer ⟨9223372036854775807, by decide, by decide⟩)) ∧
    ∃ projection, project (ticketHost ticketActor) ledgerCaller risingLedger.records ledgerPolicy
        .query = .ok projection ∧
      I64.InRange (visibleTotal ⟨"fld_a", by decide⟩ projection.rows) ∧
      visibleSum (ticketHost ticketActor) ledgerCaller risingLedger.records ledgerPolicy
        ⟨"fld_a", by decide⟩ = .error (.fail .overflow) := by
  refine ⟨?_, ?_⟩
  · obtain ⟨formulas, hcompile⟩ := exists_eq_ok
      (x := CheckedFormulas.compile ledgerDefinition ledgerFormulas .default) (by decide +kernel)
    have hvisits : Visits formulas.definitions risingLedger ledgerRoot ledgerTotal
        (⟨ledgerRoot, ledgerTotal⟩ :: (risingLedger.childrenOf ⟨"tbl_e", by decide⟩
          ⟨"fld_r", by decide⟩ ledgerRoot).flatMap fun child =>
            [⟨child, .field ⟨"fld_a", by decide⟩⟩]) :=
      .sum _ fun child _ => .field
    have hrising : (CheckedFormulas.compile ledgerDefinition ledgerFormulas .default >>=
        fun formulas => formulas.evaluate risingLedger localPreviewPolicy 24
          ⟨"tbl_e", by decide⟩ ⟨"rec_a", by decide⟩ "total") = .error (.fail .overflow) := by
      decide +kernel
    have hfalling : (CheckedFormulas.compile ledgerDefinition ledgerFormulas .default >>=
        fun formulas => formulas.evaluate fallingLedger localPreviewPolicy 24
          ⟨"tbl_e", by decide⟩ ⟨"rec_a", by decide⟩ "total") =
        .ok (.integer ⟨9223372036854775807, by decide, by decide⟩) := by
      decide +kernel
    rw [hcompile, ok_bind] at hrising hfalling
    refine ⟨formulas, _, hcompile, hvisits, fun visit hvisit n hn => ?_, hrising, hfalling⟩
    rcases List.mem_cons.1 hvisit with rfl | hchild
    · generalize hnumber : some n = number at hn
      cases hn with
      | sum number hchildren =>
          obtain rfl := Option.some.inj hnumber
          rw [List.map_congr_left fun child hchild => by
            rw [(hchildren child hchild).unique .field]]
          decide +kernel
    · obtain ⟨child, -, hmem⟩ := List.mem_flatMap.1 hchild
      obtain rfl := List.mem_singleton.1 hmem
      have hvalue := hn.unique .field
      cases hread : child.value ⟨"fld_a", by decide⟩ <;> rw [hread] at hvalue <;> cases hvalue
      all_goals exact I64.inRange_val _
  · obtain ⟨projection, hproject⟩ := exists_eq_ok (x := project (ticketHost ticketActor) ledgerCaller
      risingLedger.records ledgerPolicy .query) (by decide +kernel)
    have htotal : (project (ticketHost ticketActor) ledgerCaller risingLedger.records ledgerPolicy
        .query >>= fun projection =>
          .ok (visibleTotal ⟨"fld_a", by decide⟩ projection.rows)) =
        .ok 9223372036854775807 := by
      decide +kernel
    rw [hproject, ok_bind] at htotal
    refine ⟨projection, hproject, ?_, by decide +kernel⟩
    rw [Except.ok.inj htotal]
    decide

/-- The rising ledger overflows, so its course computes a number that does not fit. -/
theorem overflow_exact_ledger : ∃ formulas visits,
    CheckedFormulas.compile ledgerDefinition ledgerFormulas .default = .ok formulas ∧
    Visits formulas.definitions risingLedger ledgerRoot ledgerTotal visits ∧
    ∃ visit ∈ visits, visit.Overflows formulas.definitions risingLedger := by
  obtain ⟨formulas, hcompile⟩ := exists_eq_ok
    (x := CheckedFormulas.compile ledgerDefinition ledgerFormulas .default) (by decide +kernel)
  obtain ⟨visits, hvisits, hexact⟩ := overflow_exact.1 ledgerSpec ledgerFormulas .default formulas
    hcompile risingLedger rfl _ _ _ (get?_of_compile hcompile List.mem_cons_self)
    ⟨"rec_a", by decide⟩ ledgerRoot (by decide +kernel)
  have hcourse : visits = ⟨ledgerRoot, ledgerTotal⟩ :: (risingLedger.childrenOf
      ⟨"tbl_e", by decide⟩ ⟨"fld_r", by decide⟩ ledgerRoot).flatMap fun child =>
        [⟨child, .field ⟨"fld_a", by decide⟩⟩] :=
    hvisits.unique (.sum _ fun child _ => .field)
  have hrun : (CheckedFormulas.compile ledgerDefinition ledgerFormulas .default >>=
      fun formulas => formulas.evaluate risingLedger localPreviewPolicy 24
        ⟨"tbl_e", by decide⟩ ⟨"rec_a", by decide⟩ "total") = .error (.fail .overflow) := by
    decide +kernel
  rw [hcompile, ok_bind] at hrun
  obtain ⟨outcome, houtcome, hover, -⟩ := hexact (hcourse ▸ by decide +kernel)
    (hcourse ▸ by decide +kernel)
  exact ⟨formulas, visits, hcompile, hvisits, hover.1 ((houtcome 24 le_rfl).symm.trans hrun)⟩

end Evobase
