import Evobase.AppSpec.SerdeDefinition
import Evobase.Foundation.JsonOrder

/-!
# Definitions in name order

A definition that is parsed into an untyped value and written again has its members in name
order. It is still read back as the same definition (`RawAppSpec.ofJson_sortKeys`), so two
definitions with the same sorted value are equal.
-/

namespace Evobase

open Foundation

theorem filter_key_eq {V : Type} {l : List (String × V)} (h : (l.map (·.1)).Nodup) {k : String}
    {v : V} (hmem : (k, v) ∈ l) : l.filter (fun m => m.1 = k) = [(k, v)] := by
  obtain ⟨pre, post, rfl⟩ := List.append_of_mem hmem
  rw [List.map_append, List.map_cons, List.nodup_append, List.nodup_cons] at h
  obtain ⟨-, ⟨hpost, -⟩, hpre⟩ := h
  have hbefore : pre.filter (fun m => m.1 = k) = [] := by
    refine List.filter_eq_nil_iff.2 fun m hm heq => ?_
    exact hpre m.1 (List.mem_map_of_mem hm) k List.mem_cons_self (by simpa using heq)
  have hafter : post.filter (fun m => m.1 = k) = [] := by
    refine List.filter_eq_nil_iff.2 fun m hm heq => hpost ?_
    have hkey : m.1 = k := by simpa using heq
    exact List.mem_map.2 ⟨m, hm, hkey⟩
  simp [List.filter_append, hbefore, hafter]

theorem lookup_filter_ne {V : Type} {l : List (String × V)} {tag name : String} (h : name ≠ tag) :
    (l.filter fun m => m.1 ≠ tag).lookup name = l.lookup name := by
  induction l with
  | nil => rfl
  | cons m rest ih =>
      obtain ⟨other, v⟩ := m
      rw [lookup_cons_ite, List.filter_cons]
      by_cases hother : other = tag
      · have hne : name ≠ other := hother ▸ h
        simp only [hother, ne_eq, not_true_eq_false, decide_false, Bool.false_eq_true, if_false]
        rw [ih, if_neg (hother ▸ hne)]
      · simp only [ne_eq, hother, not_false_eq_true, decide_true, if_true]
        rw [lookup_cons_ite, ih]

/-- The tag and the other fields of a sorted value that is tagged from inside. -/
theorem untag?_sortKeys_ofFields (tag variant : String) (fields : List (String × Option Json))
    (names : List String) (hnames : fields.map (·.1) = names) (h : (tag :: names).Nodup) :
    ∃ rest, untag? tag (Json.sortKeys (.ofFields ((tag, some (.str variant)) :: fields))) =
        some (variant, .obj rest) ∧
      (Json.obj rest).fields? names = some (fields.map fun f => f.2.map Json.sortKeys) := by
  obtain ⟨htag, hnodup⟩ := List.nodup_cons.1 h
  have hall : ((tag, some (Json.str variant)) :: fields).map (·.1) = tag :: names := by
    rw [List.map_cons, hnames]
  have hread := Json.fields?_sortKeys_ofFields hall h
  obtain ⟨members, hmembers⟩ : ∃ members, Json.sortKeys
      (.ofFields ((tag, some (.str variant)) :: fields)) = .obj members :=
    ⟨_, by rw [Json.ofFields, Json.sortKeys]⟩
  rw [hmembers] at hread ⊢
  simp only [Json.fields?] at hread
  split_ifs at hread with hmem
  obtain ⟨hkeys, hdeclared⟩ := hmem
  obtain ⟨hvariant, hothers⟩ := List.cons.inj (Option.some.inj hread)
  refine ⟨members.filter fun m => m.1 ≠ tag, ?_, ?_⟩
  · have hfound : (tag, Json.str variant) ∈ members :=
      (lookup_eq_some_iff_mem hkeys).1 (by simpa [Json.sortKeys] using hvariant)
    rw [untag?, filter_key_eq hkeys hfound]
  · rw [Json.fields?, if_pos]
    · rw [← hothers]
      refine congrArg some (List.map_congr_left fun name hname => lookup_filter_ne ?_)
      rintro rfl
      exact htag hname
    · refine ⟨hkeys.sublist (List.filter_sublist.map _), fun m hm => ?_⟩
      obtain ⟨hm, hne⟩ := List.mem_filter.1 hm
      exact (List.mem_cons.1 (hdeclared m hm)).resolve_left (by simpa using hne)

@[simp] theorem Identity.ofJson_sortKeys {kind : IdKind} (a : Identity kind) :
    Identity.ofJson a.toJson.sortKeys = some a :=
  Identity.ofJson_toJson a

@[simp] theorem RoleId.ofJson_sortKeys (r : RoleId) : ofJson r.toJson.sortKeys = some r :=
  RoleId.ofJson_toJson r

@[simp] theorem str?_sortKeys_str (s : String) : (Json.str s).sortKeys.str? = some s := rfl

@[simp] theorem boolOrFalse_sortKeys_bool (b : Bool) :
    Json.boolOrFalse (some (Json.bool b).sortKeys) = some b := rfl

@[simp] theorem int?_sortKeys_ofU64 (n : U64) : Json.int? (Json.ofU64 n).sortKeys = some n :=
  Json.int?_ofU64 n

@[simp] theorem int?_sortKeys_ofI64 (n : I64) : Json.int? (Json.ofI64 n).sortKeys = some n :=
  Json.int?_ofI64 n

@[simp] theorem int?_sortKeys_ofU32 (n : U32) : Json.int? (Json.ofU32 n).sortKeys = some n :=
  Json.int?_ofU32 n

theorem untag?_sortKeys_unit (tag variant : String) :
    ∃ rest, untag? tag (Json.sortKeys (.ofFields [(tag, some (.str variant))])) =
      some (variant, .obj rest) :=
  (untag?_sortKeys_ofFields tag variant [] [] rfl (by simp)).imp fun _ => And.left

@[simp] theorem FieldType.ofJson_sortKeys (t : FieldType) : ofJson t.toJson.sortKeys = some t := by
  cases t with
  | ref targetTable =>
      obtain ⟨rest, hrest, hfields⟩ := untag?_sortKeys_ofFields "type" "ref"
        [("target_table", some targetTable.toJson)] ["target_table"] rfl (by decide)
      simp [ofJson, toJson, hrest, hfields]
  | text =>
      obtain ⟨rest, hrest⟩ := untag?_sortKeys_unit "type" "text"
      simp [ofJson, toJson, name, hrest, untaggedUnit?]
  | integer =>
      obtain ⟨rest, hrest⟩ := untag?_sortKeys_unit "type" "integer"
      simp [ofJson, toJson, name, hrest, untaggedUnit?]
  | bool =>
      obtain ⟨rest, hrest⟩ := untag?_sortKeys_unit "type" "bool"
      simp [ofJson, toJson, name, hrest, untaggedUnit?]
  | money =>
      obtain ⟨rest, hrest⟩ := untag?_sortKeys_unit "type" "money"
      simp [ofJson, toJson, name, hrest, untaggedUnit?]

@[simp] theorem RawField.ofJson_sortKeys (f : RawField) : ofJson f.toJson.sortKeys = some f := by
  simp [ofJson, toJson, Json.fields?_sortKeys_ofFields]

@[simp] theorem RawTable.ofJson_sortKeys (t : RawTable) : ofJson t.toJson.sortKeys = some t := by
  simp [ofJson, toJson, Json.fields?_sortKeys_ofFields, Json.list?_sortKeys_ofList]

@[simp] theorem CaptureRule.ofJson_sortKeys (r : CaptureRule) :
    ofJson r.toJson.sortKeys = some r := by
  simp [ofJson, toJson, Json.fields?_sortKeys_ofFields]

@[simp] theorem Constraint.ofJson_sortKeys (c : Constraint) : ofJson c.toJson.sortKeys = some c := by
  cases c with
  | nonEmpty =>
      obtain ⟨rest, hrest⟩ := untag?_sortKeys_unit "kind" "non_empty"
      simp [ofJson, toJson, hrest, untaggedUnit?]
  | textLength min max =>
      obtain ⟨rest, hrest, hfields⟩ := untag?_sortKeys_ofFields "kind" "text_length"
        [("min", some (.ofU64 min)), ("max", some (.ofU64 max))] ["min", "max"] rfl (by decide)
      simp [ofJson, toJson, hrest, bounds?, hfields]
  | numericRange min max =>
      obtain ⟨rest, hrest, hfields⟩ := untag?_sortKeys_ofFields "kind" "numeric_range"
        [("min", some (.ofI64 min)), ("max", some (.ofI64 max))] ["min", "max"] rfl (by decide)
      simp [ofJson, toJson, hrest, bounds?, hfields]

@[simp] theorem RawFieldConstraint.ofJson_sortKeys (r : RawFieldConstraint) :
    ofJson r.toJson.sortKeys = some r := by
  simp [ofJson, toJson, Json.fields?_sortKeys_ofFields]

@[simp] theorem RawOwnerRolePolicy.ofJson_sortKeys (p : RawOwnerRolePolicy) :
    ofJson p.toJson.sortKeys = some p := by
  simp [ofJson, toJson, Json.fields?_sortKeys_ofFields, Json.set?_sortKeys_ofSet]

@[simp] theorem RawSubmitOrderRule.ofJson_sortKeys (r : RawSubmitOrderRule) :
    ofJson r.toJson.sortKeys = some r := by
  simp [ofJson, toJson, Json.fields?_sortKeys_ofFields]

@[simp] theorem RawStateMachine.ofJson_sortKeys (m : RawStateMachine) :
    ofJson m.toJson.sortKeys = some m := by
  have hstates : Json.set? Json.str? (Json.ofSet Json.str m.states).sortKeys = some m.states :=
    Json.set?_sortKeys_ofSet fun s _ => str?_sortKeys_str s
  have hterminal : Json.setOrEmpty Json.str?
      ((Json.setUnlessEmpty Json.str m.terminalStates).map Json.sortKeys) = some m.terminalStates :=
    Json.setOrEmpty_map_setUnlessEmpty fun s _ => str?_sortKeys_str s
  simp [ofJson, toJson, Json.fields?_sortKeys_ofFields, hstates, hterminal]

@[simp] theorem CommandInput.ofJson_sortKeys (i : CommandInput) :
    ofJson i.toJson.sortKeys = some i := by
  simp [ofJson, toJson, Json.fields?_sortKeys_ofFields, Json.listOrEmpty_map_unlessEmpty]

@[simp] theorem Scope.ofJson_sortKeys (s : Scope) : ofJson s.toJson.sortKeys = some s := by
  simp [ofJson, toJson, Json.fields?_sortKeys_ofFields]

@[simp] theorem RecordRef.ofJson_sortKeys (r : RecordRef) : ofJson r.toJson.sortKeys = some r := by
  simp [ofJson, toJson, Json.fields?_sortKeys_ofFields]

@[simp] theorem Value.ofJson_sortKeys (v : Value) : ofJson v.toJson.sortKeys = some v := by
  have hfields : v.toJson.sortKeys.fields? ["type", "value"] =
      some [some (Json.str v.tag).sortKeys, v.content.map Json.sortKeys] := by
    simp [toJson, Json.fields?_sortKeys_ofFields]
  have htagged : v.toJson.sortKeys.adjacent? "type" "value" =
      some (v.tag, v.content.map Json.sortKeys) := by
    simp only [toJson, Json.ofFields, Json.sortKeys] at hfields ⊢
    simp [Json.adjacent?, hfields, Json.variantName?]
  rw [ofJson, htagged]
  cases v <;> simp [ofTagged, tag, content, unit?, Json.sortKeys]

@[simp] theorem CommandGuard.ofJson_sortKeys (g : CommandGuard) :
    ofJson g.toJson.sortKeys = some g := by
  simp [ofJson, toJson, Json.fields?_sortKeys_ofFields]

@[simp] theorem RawEventIntent.ofJson_sortKeys (e : RawEventIntent) :
    ofJson e.toJson.sortKeys = some e := by
  simp [ofJson, toJson, Json.fields?_sortKeys_ofFields, Json.set?_sortKeys_ofSet]

@[simp] theorem RawCommand.ofJson_sortKeys (c : RawCommand) : ofJson c.toJson.sortKeys = some c := by
  simp [ofJson, toJson, Json.fields?_sortKeys_ofFields, Json.listOrEmpty_map_unlessEmpty]

/-- A definition is read back from its value in name order. -/
@[simp] theorem RawAppSpec.ofJson_sortKeys (spec : RawAppSpec) :
    ofJson spec.toJson.sortKeys = some spec := by
  simp [ofJson, toJson, Json.fields?_sortKeys_ofFields, Json.list?_sortKeys_ofList,
    Json.listOrEmpty_map_unlessEmpty]

theorem RawAppSpec.eq_of_sortKeys_eq {spec spec' : RawAppSpec}
    (h : spec.toJson.sortKeys = spec'.toJson.sortKeys) : spec = spec' := by
  have hread := spec.ofJson_sortKeys
  rw [h, spec'.ofJson_sortKeys] at hread
  exact (Option.some.inj hread).symm

end Evobase
