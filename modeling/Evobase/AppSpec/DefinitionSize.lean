import Evobase.AppSpec.SerdeDefinition
import Evobase.Foundation.JsonNeat
import Evobase.Foundation.Text

/-!
# How deep definitions are nested

A written definition repeats no name and is nested at most eight deep: an event or a guard of a
command is the deepest part.
-/

namespace Evobase

open Foundation

@[simp] theorem Identity.neat_toJson {kind : IdKind} (d : Nat) (a : Identity kind) :
    a.toJson.Neat d :=
  Json.neat_str d a.text

theorem toNat_of_isIdChar {c : Char} (h : isIdChar c = true) :
    45 ≤ c.toNat ∧ c.toNat ≤ 122 ∧ c.toNat ≠ 92 := by
  simp only [isIdChar, Bool.or_eq_true, beq_iff_eq, Text.isAlphanum_iff] at h
  rcases h with (h | rfl) | rfl
  · omega
  · decide
  · decide

theorem escape_of_isIdChar {c : Char} (h : isIdChar c = true) :
    Json.escape c = String.utf8EncodeChar c := by
  obtain ⟨hlow, -, hslash⟩ := toNat_of_isIdChar h
  unfold Json.escape
  split_ifs <;> first | rfl | omega

theorem length_printString_of_idChars {text : String} (h : text.toList.all isIdChar = true) :
    (Json.printString text).length = text.utf8ByteSize + 2 :=
  Json.length_printString_of_plain fun _ hc => escape_of_isIdChar (List.all_eq_true.1 h _ hc)

theorem Identity.length_print {kind : IdKind} (a : Identity kind) :
    a.toJson.print.length = a.text.utf8ByteSize + 2 ∧ a.text.utf8ByteSize ≤ 80 := by
  have haccepts := a.wellFormed
  simp only [IdKind.accepts, Bool.and_eq_true, decide_eq_true_eq] at haccepts
  exact ⟨length_printString_of_idChars haccepts.2, haccepts.1.1.1⟩

theorem Scope.neat_toJson (s : Scope) : s.toJson.Neat 1 :=
  Json.neat_ofFields (by simp) (by simp)

theorem RecordRef.neat_toJson (r : RecordRef) : r.toJson.Neat 2 :=
  Json.neat_ofFields (by simp) (by simp [r.scope.neat_toJson])

theorem Value.neat_toJson (v : Value) : v.toJson.Neat 3 := by
  have hcontent : ∀ j ∈ v.content, j.Neat 2 := by
    cases v <;> simp [content, RecordRef.neat_toJson]
  exact Json.neat_ofFields (by simp) (by simpa using hcontent)

theorem neat_valuesToJson (values : OrdMap FieldId Value) : (valuesToJson values).Neat 4 :=
  Json.neat_ofMap Identity.text_injective Value.neat_toJson

@[simp] theorem RoleId.neat_toJson (d : Nat) (r : RoleId) : r.toJson.Neat d :=
  Json.neat_str d r.text

theorem FieldType.neat_toJson (t : FieldType) : t.toJson.Neat 1 := by
  cases t <;> exact Json.neat_ofFields (by simp) (by simp)

theorem RawField.neat_toJson (f : RawField) : f.toJson.Neat 2 :=
  Json.neat_ofFields (by simp) (by simp [f.fieldType.neat_toJson])

theorem RawTable.neat_toJson (t : RawTable) : t.toJson.Neat 4 := by
  have hfields : (Json.ofList RawField.toJson t.fields).Neat 3 :=
    Json.neat_ofList fun f _ => f.neat_toJson
  exact Json.neat_ofFields (by simp) (by simpa using hfields)

theorem CaptureRule.neat_toJson (r : CaptureRule) : r.toJson.Neat 1 :=
  Json.neat_ofFields (by simp) (by simp)

theorem Constraint.neat_toJson (c : Constraint) : c.toJson.Neat 1 := by
  cases c <;> exact Json.neat_ofFields (by simp) (by simp)

theorem RawFieldConstraint.neat_toJson (r : RawFieldConstraint) : r.toJson.Neat 2 :=
  Json.neat_ofFields (by simp) (by simp [r.constraint.neat_toJson])

theorem RawOwnerRolePolicy.neat_toJson (p : RawOwnerRolePolicy) : p.toJson.Neat 2 := by
  have hfields : (Json.ofSet Identity.toJson p.readFields).Neat 1 :=
    Json.neat_ofList fun f _ => f.neat_toJson 0
  have hroles : ∀ roles : OrdSet RoleId, (Json.ofSet RoleId.toJson roles).Neat 1 := fun roles =>
    Json.neat_ofList fun r _ => r.neat_toJson 0
  exact Json.neat_ofFields (by simp) (by simp [hfields, hroles])

theorem RawSubmitOrderRule.neat_toJson (r : RawSubmitOrderRule) : r.toJson.Neat 1 :=
  Json.neat_ofFields (by simp) (by simp)

theorem RawStateMachine.neat_toJson (m : RawStateMachine) : m.toJson.Neat 2 := by
  have hstates : (Json.ofSet .str m.states).Neat 1 := Json.neat_ofList fun s _ => Json.neat_str 0 s
  have hterminal : ∀ j ∈ Json.setUnlessEmpty .str m.terminalStates, j.Neat 1 :=
    Json.neat_unlessEmpty fun s _ => Json.neat_str 0 s
  exact Json.neat_ofFields (by simp) (by simpa [hstates] using hterminal)

theorem CommandInput.neat_toJson (i : CommandInput) : i.toJson.Neat 3 := by
  have hconstraints : ∀ j ∈ Json.unlessEmpty Constraint.toJson i.constraints, j.Neat 2 :=
    Json.neat_unlessEmpty fun c _ => c.neat_toJson
  exact Json.neat_ofFields (by simp) (by simpa using hconstraints)

theorem CommandGuard.neat_toJson (g : CommandGuard) : g.toJson.Neat 4 :=
  Json.neat_ofFields (by simp) (by simp [g.equals.neat_toJson])

theorem RawEventIntent.neat_toJson (e : RawEventIntent) : e.toJson.Neat 2 := by
  have hfields : (Json.ofSet Identity.toJson e.fields).Neat 1 :=
    Json.neat_ofList fun f _ => f.neat_toJson 0
  exact Json.neat_ofFields (by simp) (by simpa using hfields)

theorem RawCommand.neat_toJson (c : RawCommand) : c.toJson.Neat 6 := by
  have hinputs : ∀ j ∈ Json.unlessEmpty CommandInput.toJson c.inputs, j.Neat 5 := fun j hj =>
    (Json.neat_unlessEmpty (fun i _ => i.neat_toJson) j hj).mono (by decide)
  have hguards : ∀ j ∈ Json.unlessEmpty CommandGuard.toJson c.guards, j.Neat 5 :=
    Json.neat_unlessEmpty fun g _ => g.neat_toJson
  have hevents : ∀ j ∈ Json.unlessEmpty RawEventIntent.toJson c.events, j.Neat 5 := fun j hj =>
    (Json.neat_unlessEmpty (fun e _ => e.neat_toJson) j hj).mono (by decide)
  refine Json.neat_ofFields (by simp) ?_
  simp only [List.forall_mem_cons, List.not_mem_nil, false_implies, implies_true, and_true]
  exact ⟨by simp, by simp, by simp, by simp, by simp, by simp, hinputs, hguards, hevents⟩

theorem neat_declarations {α : Type} {write : α → Json} {d : Nat} (hd : d ≤ 6)
    (h : ∀ a, (write a).Neat d) (l : List α) : ∀ j ∈ Json.unlessEmpty write l, j.Neat 7 :=
  fun j hj => (Json.neat_unlessEmpty (fun a _ => h a) j hj).mono (by omega)

theorem RawAppSpec.neat_toJson (spec : RawAppSpec) : spec.toJson.Neat 8 := by
  have htables : (Json.ofList RawTable.toJson spec.tables).Neat 7 :=
    (Json.neat_ofList fun t _ => t.neat_toJson).mono (by decide)
  refine Json.neat_ofFields (by simp) ?_
  simp only [List.forall_mem_cons, List.not_mem_nil, false_implies, implies_true, and_true]
  exact ⟨by simp, by simp, by simp, by simpa using htables,
    neat_declarations (by decide) CaptureRule.neat_toJson _,
    neat_declarations (by decide) RawOwnerRolePolicy.neat_toJson _,
    neat_declarations (by decide) RawSubmitOrderRule.neat_toJson _,
    neat_declarations (by decide) RawFieldConstraint.neat_toJson _,
    neat_declarations (by decide) RawStateMachine.neat_toJson _,
    neat_declarations (by decide) RawCommand.neat_toJson _⟩

end Evobase
