import Evobase.AppSpec.Compile
import Evobase.AppSpec.DefinitionSize

/-!
# What a compiled definition bounds

Compilation counts the tables, the fields, the commands and their inputs, and it looks at the
name of every table and field. The identities of fields are different across the tables, so a
field of a shown table is a field of no other one.
-/

namespace Evobase

open Foundation

def DisplayName (name : String) : Prop :=
  name ≠ "" ∧ name.utf8ByteSize ≤ maxNameBytes ∧ name.toList.any isControl = false

theorem checkName_eq_ok_iff {name path : String} :
    checkName name path = .ok () ↔ DisplayName name := by
  simp only [checkName, rejectIf_eq_ok, not_or, gt_iff_lt, not_lt, Bool.not_eq_true, DisplayName,
    ne_eq]

theorem Identity.displayName {kind : IdKind} (a : Identity kind) : DisplayName a.text := by
  have haccepts := a.wellFormed
  simp only [IdKind.accepts, Bool.and_eq_true, decide_eq_true_eq] at haccepts
  obtain ⟨⟨⟨hsize, hstem⟩, -⟩, hchars⟩ := haccepts
  refine ⟨?_, hsize.trans (by decide), ?_⟩
  · intro hempty
    rw [hempty] at hstem
    cases kind <;> simp [startsWith, IdKind.stem] at hstem
  · rw [List.any_eq_false]
    intro c hc
    have hplain := toNat_of_isIdChar (List.all_eq_true.1 hchars c hc)
    simp only [isControl, Bool.or_eq_true, Bool.and_eq_true, decide_eq_true_eq]
    omega

theorem pairwise_of_eachAfter {ε α : Type} {f : List α → α → Except ε Unit} {l : List α} {u : Unit}
    {R : α → α → Prop} (step : ∀ before a, f before a = .ok () → ∀ b ∈ before, R b a)
    (h : eachAfter f [] l = .ok u) : l.Pairwise R := by
  rw [List.pairwise_iff_forall_sublist]
  intro a b hsub
  obtain ⟨pre, post, rfl, hpre, hpost⟩ := List.cons_sublist_iff.1 hsub
  obtain ⟨mid, rest, rfl⟩ := List.append_of_mem (List.singleton_sublist.1 hpost)
  have hvisit := eachAfter_eq_ok_iff.1 h (pre ++ mid) b rest (by simp)
  exact step _ _ hvisit a (by simp [hpre])

theorem eachAfter_of_pairwise {ε α : Type} {f : List α → α → Except ε Unit} {l : List α}
    {R : α → α → Prop} (hpairwise : l.Pairwise R)
    (h : ∀ before a, a ∈ l → (∀ b ∈ before, R b a) → f before a = .ok ()) :
    eachAfter f [] l = .ok () := by
  rw [eachAfter_eq_ok_iff]
  rintro pre a post rfl
  rw [List.pairwise_append] at hpairwise
  exact h _ a (by simp) fun b hb => hpairwise.2.2 b (by simpa using hb) a List.mem_cons_self

/-- The counts and the names of a definition. -/
structure SmallSpec (spec : RawAppSpec) : Prop where
  tables_le : spec.tables.length ≤ maxTables
  fields_le : (spec.tables.map fun table => table.fields.length).sum ≤ maxFields
  commands_le : spec.commands.length ≤ maxCommands
  inputs_le : ∀ command ∈ spec.commands, command.inputs.length ≤ maxCommandInputs
  tableNames : ∀ table ∈ spec.tables, DisplayName table.name
  fieldNames : ∀ table ∈ spec.tables, ∀ field ∈ table.fields, DisplayName field.name
  fieldIds : (spec.tables.flatMap fun table => table.fields.map (·.id)).Nodup
  inputIds : ∀ command ∈ spec.commands, (command.inputs.map (·.fieldId)).Nodup

section Tables

variable {before : List RawTable} {table : RawTable}

theorem names_of_checkTable (h : checkTable before table = .ok ()) :
    DisplayName table.name ∧ ∀ field ∈ table.fields, DisplayName field.name := by
  simp only [checkTable, bind_eq_ok] at h
  obtain ⟨-, -, ⟨⟩, hname, -, -, -, -, hfields⟩ := h
  refine ⟨checkName_eq_ok_iff.1 hname, fun field hfield => ?_⟩
  obtain ⟨seen, hvisit⟩ := visit_of_eachAfter hfields hfield
  obtain ⟨-, -, hfieldName⟩ := bind_eq_ok.1 hvisit
  exact checkName_eq_ok_iff.1 hfieldName

theorem fields_of_checkTable (h : checkTable before table = .ok ()) :
    (∀ other ∈ before, (other.fields.map (·.id)).Disjoint (table.fields.map (·.id))) ∧
      ((before ++ [table]).map fun t => t.fields.length).sum ≤ maxFields := by
  simp only [checkTable, bind_eq_ok, rejectIf_eq_ok, gt_iff_lt, not_lt] at h
  obtain ⟨-, -, -, -, -, -, -, hcount, hfields⟩ := h
  refine ⟨fun other hother id hleft hright => ?_, by simpa using hcount⟩
  obtain ⟨field, hfield, rfl⟩ := List.mem_map.1 hright
  obtain ⟨seen, hvisit⟩ := visit_of_eachAfter hfields hfield
  simp only [bind_eq_ok, rejectIf_eq_ok, not_or, List.mem_flatMap, not_exists, not_and] at hvisit
  obtain ⟨-, ⟨hfresh, -⟩, -⟩ := hvisit
  exact hfresh other hother hleft

end Tables

theorem inputs_of_checkCommand {spec : RawAppSpec} {before : List RawCommand} {command : RawCommand}
    (h : checkCommand spec before command = .ok ()) : (command.inputs.map (·.fieldId)).Nodup := by
  simp only [checkCommand, bind_eq_ok] at h
  obtain ⟨-, -, machine, -, policy, -, -, -, -, -, ⟨⟩, hinputs, -⟩ := h
  refine nodup_of_eachAfter _ (fun seen input hvisit => ?_) hinputs
  simp only [checkInput, bind_eq_ok, rejectIf_eq_ok, not_or] at hvisit
  obtain ⟨-, -, -, ⟨hfresh, -⟩, -⟩ := hvisit
  exact hfresh

theorem smallSpec (spec : CheckedAppSpec) : SmallSpec spec.definition := by
  obtain ⟨hheader, hcanonical, hself⟩ := compile_eq_ok_iff.1 (compile_definition spec)
  rw [← hself] at hcanonical
  simp only [checkHeader, checkLimits, bind_eq_ok, rejectIf_eq_ok, each_eq_ok_iff, gt_iff_lt,
    not_lt] at hheader
  obtain ⟨-, -, -, -, -, -, -, -, -, -, -, ⟨-, -, -, hcommands, -, -, hinputs⟩, -, htablesLe, -⟩ :=
    hheader
  simp only [checkCanonical, checkDeclarations, bind_eq_ok] at hcanonical
  obtain ⟨⟨⟩, htables, -, -, -, -, -, -, -, -, -, -, -, -, hdeclared⟩ := hcanonical
  have hvisit : ∀ table ∈ spec.definition.tables, ∃ before, checkTable before table = .ok () :=
    fun table htable => visit_of_eachAfter htables htable
  refine ⟨htablesLe, ?_, hcommands, fun command hcommand => (hinputs command hcommand).choose_spec.1,
    fun table htable => ?_, fun table htable => ?_, ?_, fun command hcommand => ?_⟩
  · rcases List.eq_nil_or_concat spec.definition.tables with hnil | ⟨before, table, hsplit⟩
    · simp [hnil]
    · rw [List.concat_eq_append] at hsplit
      rw [hsplit]
      exact (fields_of_checkTable (eachAfter_eq_ok_iff.1 htables before table [] hsplit)).2
  · obtain ⟨before, hcheck⟩ := hvisit table htable
    exact (names_of_checkTable hcheck).1
  · obtain ⟨before, hcheck⟩ := hvisit table htable
    exact (names_of_checkTable hcheck).2
  · rw [List.nodup_flatMap]
    refine ⟨fun table htable => ?_, ?_⟩
    · obtain ⟨before, hcheck⟩ := hvisit table htable
      exact (of_checkTable hcheck).2.2
    · exact pairwise_of_eachAfter (fun before table hcheck => (fields_of_checkTable hcheck).1) htables
  · obtain ⟨before, hcheck⟩ := visit_of_eachAfter hdeclared hcommand
    exact inputs_of_checkCommand hcheck

end Evobase
