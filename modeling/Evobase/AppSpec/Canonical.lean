import Evobase.AppSpec.Compile

/-!
# Definitions up to order

Compilation puts every list of a definition in the order of its identities before it
checks it, so two definitions that differ in the order of their lists alone are accepted
together and compile to one definition (`compile_reordered`). The text of a compiled
definition decodes to that definition (`decode_encode`).
-/

namespace Evobase

open Foundation

/-- The definition in a text. -/
def decode (reader : JsonReader) (bytes : List UInt8) : Except Error RawAppSpec := do
  preflight bytes
  let raw ← okOr (.invalidJson (reader.message bytes))
    ((reader.parse bytes).bind RawAppSpec.ofJson)
  compile raw

def CheckedAppSpec.encode (spec : CheckedAppSpec) : Except Error (List UInt8) :=
  boundedEncode spec.definition.toJson

/-- The text of a compiled definition is read back. -/
theorem decode_encode (reader : JsonReader) (spec : CheckedAppSpec) :
    ∃ bytes, spec.encode = .ok bytes ∧ decode reader bytes = .ok spec.definition := by
  have hexact := spec.definition.exact_toJson
  have hfits := (wellFormed spec).fits
  have hdepth : spec.definition.toJson.depth ≤ 127 := hfits.depth.trans (by decide)
  refine ⟨_, (boundedEncode_eq_ok_iff hexact).2 ⟨hfits, rfl⟩, ?_⟩
  rw [decode, (preflight_print_iff hexact).2 hfits, ok_bind,
    reader.parse_print _ hexact hdepth, Option.bind_some, RawAppSpec.ofJson_toJson]
  exact compile_definition spec

/-- The fields of the table are in another order. -/
structure RawTable.Reordered (table table' : RawTable) : Prop where
  rest : table' = { table with fields := table'.fields }
  fields : table.fields.Perm table'.fields

/-- The inputs, the guards and the events of the command are in another order. -/
structure RawCommand.Reordered (command command' : RawCommand) : Prop where
  rest : command' = { command with
    inputs := command'.inputs
    guards := command'.guards
    events := command'.events }
  inputs : command.inputs.Perm command'.inputs
  guards : command.guards.Perm command'.guards
  events : command.events.Perm command'.events

/-- The lists of the definition, and those within its tables and its commands, are in
another order. -/
structure RawAppSpec.Reordered (raw raw' : RawAppSpec) : Prop where
  version : raw'.version = raw.version
  appId : raw'.appId = raw.appId
  name : raw'.name = raw.name
  tables : Rearranged RawTable.Reordered raw.tables raw'.tables
  captureRules : raw.captureRules.Perm raw'.captureRules
  policies : raw.policies.Perm raw'.policies
  submitRules : raw.submitRules.Perm raw'.submitRules
  constraints : raw.constraints.Perm raw'.constraints
  stateMachines : raw.stateMachines.Perm raw'.stateMachines
  commands : Rearranged RawCommand.Reordered raw.commands raw'.commands

theorem RawTable.Reordered.symm {table table' : RawTable} (h : table.Reordered table') :
    table'.Reordered table where
  rest := by rw [h.rest]
  fields := h.fields.symm

theorem RawCommand.Reordered.symm {command command' : RawCommand}
    (h : command.Reordered command') : command'.Reordered command where
  rest := by rw [h.rest]
  inputs := h.inputs.symm
  guards := h.guards.symm
  events := h.events.symm

theorem RawAppSpec.Reordered.symm {raw raw' : RawAppSpec} (h : raw.Reordered raw') :
    raw'.Reordered raw where
  version := h.version.symm
  appId := h.appId.symm
  name := h.name.symm
  tables := h.tables.symm RawTable.Reordered.symm
  captureRules := h.captureRules.symm
  policies := h.policies.symm
  submitRules := h.submitRules.symm
  constraints := h.constraints.symm
  stateMachines := h.stateMachines.symm
  commands := h.commands.symm RawCommand.Reordered.symm

/-- The identities by which the lists of a definition are sorted are pairwise different. -/
structure DistinctIds (raw : RawAppSpec) : Prop where
  tables : (raw.tables.map (·.id)).Nodup
  fields : ∀ table ∈ raw.tables, (table.fields.map (·.id)).Nodup
  captureRules : (raw.captureRules.map CaptureRule.target).Nodup
  policies : (raw.policies.map (·.ruleId)).Nodup
  submitRules : (raw.submitRules.map (·.ruleId)).Nodup
  constraints : (raw.constraints.map (·.constraintId)).Nodup
  stateMachines : (raw.stateMachines.map (·.machineId)).Nodup
  commands : (raw.commands.map (·.commandId)).Nodup
  inputs : ∀ command ∈ raw.commands, (command.inputs.map (·.fieldId)).Nodup
  guards : ∀ command ∈ raw.commands, (command.guards.map (·.fieldId)).Nodup
  events : ∀ command ∈ raw.commands, (command.events.map (·.eventId)).Nodup

theorem nodup_of_checkCommand {spec : RawAppSpec} {before : List RawCommand}
    {command : RawCommand} (h : checkCommand spec before command = .ok ()) :
    (command.inputs.map (·.fieldId)).Nodup ∧ (command.guards.map (·.fieldId)).Nodup ∧
      (command.events.map (·.eventId)).Nodup := by
  simp only [checkCommand, bind_eq_ok, rejectIf_eq_ok, okOr_eq_ok, not_or, not_not] at h
  obtain ⟨-, -, machine, -, policy, -, -, -, -, -, ⟨⟩, hinputs, ⟨⟩, hguards, hevents⟩ := h
  refine ⟨nodup_of_eachAfter _ ?_ hinputs, nodup_of_eachAfter _ ?_ hguards,
    nodup_of_eachAfter _ ?_ hevents⟩
  · intro seen input hvisit
    simp only [checkInput, bind_eq_ok, okOr_eq_ok, rejectIf_eq_ok, not_or] at hvisit
    obtain ⟨-, -, -, ⟨hfresh, -⟩, -⟩ := hvisit
    exact hfresh
  · intro seen guard hvisit
    simp only [checkGuard, bind_eq_ok, okOr_eq_ok, rejectIf_eq_ok, not_or] at hvisit
    obtain ⟨-, -, hfresh, -⟩ := hvisit
    exact hfresh
  · intro seen event hvisit
    simp only [checkEvent, rejectIf_eq_ok, not_or] at hvisit
    exact hvisit.1

theorem nodup_of_checkConstraints {spec : RawAppSpec} (h : checkConstraints spec = .ok ()) :
    (spec.constraints.map (·.constraintId)).Nodup := by
  simp only [checkConstraints, bind_eq_ok] at h
  obtain ⟨-, -, hrules⟩ := h
  refine nodup_of_eachAfter _ ?_ hrules
  intro seen rule hvisit
  simp only [bind_eq_ok, rejectIf_eq_ok] at hvisit
  obtain ⟨-, hfresh, -⟩ := hvisit
  exact hfresh

theorem nodup_of_checkRules {spec : RawAppSpec} (h : checkRules spec = .ok ()) :
    (spec.submitRules.map (·.ruleId)).Nodup := by
  simp only [checkRules, bind_eq_ok] at h
  obtain ⟨-, -, ⟨⟩, -, hsubmits⟩ := h
  refine nodup_of_eachAfter _ ?_ hsubmits
  intro seen rule hvisit
  simp only [bind_eq_ok, rejectIf_eq_ok, not_or] at hvisit
  obtain ⟨-, ⟨-, hfresh⟩, -⟩ := hvisit
  exact hfresh

theorem distinctIds_of_checkCanonical {raw : RawAppSpec}
    (h : checkCanonical raw.canonical = .ok ()) : DistinctIds raw := by
  simp only [checkCanonical, bind_eq_ok] at h
  obtain ⟨⟨⟩, htables, ⟨⟩, -, ⟨⟩, hconstraints, ⟨⟩, hcaptures, -, -, ⟨⟩, hrules, hdeclarations⟩ := h
  have haccepted := of_checkDeclarations hdeclarations
  simp only [checkDeclarations, bind_eq_ok] at hdeclarations
  obtain ⟨⟨⟩, -, hcommands⟩ := hdeclarations
  have hlists : ∀ command ∈ raw.commands,
      (command.canonical.inputs.map (·.fieldId)).Nodup ∧
        (command.canonical.guards.map (·.fieldId)).Nodup ∧
        (command.canonical.events.map (·.eventId)).Nodup := fun command hmem => by
    obtain ⟨before, hcheck⟩ := visit_of_eachAfter hcommands
      (List.mem_map_of_mem ((mem_sortBy _).2 hmem))
    exact nodup_of_checkCommand hcheck
  exact {
    tables := nodup_of_sortBy _ (by
      simpa [RawAppSpec.canonical, List.map_map, Function.comp_def, RawTable.canonical] using
        nodup_of_eachAfter (fun t : RawTable => t.id) (fun before t ht => (of_checkTable ht).1) htables)
    fields := fun table hmem => by
      obtain ⟨before, hcheck⟩ := visit_of_eachAfter htables
        (List.mem_map_of_mem ((mem_sortBy _).2 hmem))
      exact nodup_of_sortBy _ (of_checkTable hcheck).2.2
    captureRules := nodup_of_sortBy CaptureRule.target
      (nodup_of_eachAfter CaptureRule.target (fun before r hr => (of_checkCapture hr).1) hcaptures)
    policies := nodup_of_sortBy _ (of_checkRules hrules).2.1
    submitRules := nodup_of_sortBy _ (nodup_of_checkRules hrules)
    constraints := nodup_of_sortBy _ (nodup_of_checkConstraints hconstraints)
    stateMachines := nodup_of_sortBy _ haccepted.machineIds
    commands := nodup_of_sortBy _ (by
      simpa [RawAppSpec.canonical, List.map_map, Function.comp_def, RawCommand.canonical] using
        haccepted.commandIds)
    inputs := fun command hmem => nodup_of_sortBy _ (hlists command hmem).1
    guards := fun command hmem => nodup_of_sortBy _ (hlists command hmem).2.1
    events := fun command hmem => nodup_of_sortBy _ (hlists command hmem).2.2 }

theorem RawTable.Reordered.canonical_eq {table table' : RawTable} (h : table.Reordered table')
    (hids : (table.fields.map (·.id)).Nodup) : table.canonical = table'.canonical := by
  rw [h.rest, RawTable.canonical, RawTable.canonical, sortBy_eq_of_perm _ h.fields hids]

theorem RawCommand.Reordered.canonical_eq {command command' : RawCommand}
    (h : command.Reordered command') (hinputs : (command.inputs.map (·.fieldId)).Nodup)
    (hguards : (command.guards.map (·.fieldId)).Nodup)
    (hevents : (command.events.map (·.eventId)).Nodup) :
    command.canonical = command'.canonical := by
  rw [h.rest, RawCommand.canonical, RawCommand.canonical, sortBy_eq_of_perm _ h.inputs hinputs,
    sortBy_eq_of_perm _ h.guards hguards, sortBy_eq_of_perm _ h.events hevents]

theorem RawAppSpec.Reordered.canonical_eq {raw raw' : RawAppSpec} (h : raw.Reordered raw')
    (hids : DistinctIds raw) : raw.canonical = raw'.canonical := by
  have htables := h.tables.map_sortBy_eq (k := fun table : RawTable => table.id)
    (f := RawTable.canonical)
    (fun _ => rfl) (fun table hmem _ hrel => hrel.canonical_eq (hids.fields table hmem)) hids.tables
  have hcommands := h.commands.map_sortBy_eq (k := fun command : RawCommand => command.commandId)
    (f := RawCommand.canonical)
    (fun _ => rfl) (fun command hmem _ hrel => hrel.canonical_eq (hids.inputs command hmem)
      (hids.guards command hmem) (hids.events command hmem)) hids.commands
  simp only [RawAppSpec.canonical, RawAppSpec.mk.injEq]
  exact ⟨h.version.symm, h.appId.symm, h.name.symm, htables,
    sortBy_eq_of_perm _ h.captureRules hids.captureRules,
    sortBy_eq_of_perm _ h.policies hids.policies,
    sortBy_eq_of_perm _ h.submitRules hids.submitRules,
    sortBy_eq_of_perm _ h.constraints hids.constraints,
    sortBy_eq_of_perm _ h.stateMachines hids.stateMachines, hcommands⟩

theorem compile_of_reordered {raw raw' spec : RawAppSpec} (h : raw.Reordered raw')
    (hcompile : compile raw = .ok spec) : compile raw' = .ok spec := by
  obtain ⟨hheader, hcanonical, rfl⟩ := compile_eq_ok_iff.1 hcompile
  have heq := h.canonical_eq (distinctIds_of_checkCanonical hcanonical)
  refine compile_eq_ok_iff.2 ⟨?_, heq ▸ hcanonical, heq⟩
  rw [← checkHeader_canonical, ← heq, checkHeader_canonical]
  exact hheader

/-- Compilation does not depend on the order of the lists of a definition, and a compiled
definition is a fixed point of compilation and of writing and reading. -/
theorem compile_canonical (reader : JsonReader) :
    (∀ raw raw' : RawAppSpec, raw.Reordered raw' →
      ((∃ spec : CheckedAppSpec, compile raw = .ok spec.definition) ↔
        ∃ spec : CheckedAppSpec, compile raw' = .ok spec.definition) ∧
      ∀ spec spec' : CheckedAppSpec, compile raw = .ok spec.definition →
        compile raw' = .ok spec'.definition → spec = spec' ∧ spec.encode = spec'.encode) ∧
    ∀ spec : CheckedAppSpec, compile spec.definition = .ok spec.definition ∧
      ∃ bytes, spec.encode = .ok bytes ∧ decode reader bytes = .ok spec.definition := by
  refine ⟨fun raw raw' h => ⟨⟨?_, ?_⟩, ?_⟩, fun spec => ⟨compile_definition spec,
    decode_encode reader spec⟩⟩
  · rintro ⟨spec, hspec⟩
    exact ⟨spec, compile_of_reordered h hspec⟩
  · rintro ⟨spec, hspec⟩
    exact ⟨spec, compile_of_reordered h.symm hspec⟩
  · rintro ⟨definition, hcompiled⟩ ⟨definition', hcompiled'⟩ hspec hspec'
    obtain rfl : definition = definition' :=
      Except.ok.inj ((compile_of_reordered h hspec).symm.trans hspec')
    exact ⟨rfl, rfl⟩

/-- The shop with its first two tables swapped. -/
def swappedShop : RawAppSpec :=
  { shopDefinition with
    tables := match shopDefinition.tables with
      | lines :: orders :: rest => orders :: lines :: rest
      | tables => tables }

theorem compile_canonical_shop : compile swappedShop = .ok shopDefinition := by
  have hreordered : shopDefinition.Reordered swappedShop := by
    refine ⟨rfl, rfl, rfl, ⟨swappedShop.tables, List.Perm.swap _ _ _, ?_⟩, .refl _, .refl _,
      .refl _, .refl _, .refl _, ⟨_, .refl _, ?_⟩⟩
    · exact List.forall₂_same.2 fun table _ => ⟨rfl, .refl _⟩
    · exact List.forall₂_same.2 fun command _ => ⟨rfl, .refl _, .refl _, .refl _⟩
  obtain ⟨spec, hspec⟩ := ((compile_canonical compactReader).1 _ _ hreordered).1.1
    ⟨shopSpec, compile_definition shopSpec⟩
  obtain ⟨rfl, -⟩ := ((compile_canonical compactReader).1 _ _ hreordered).2 shopSpec spec
    (compile_definition shopSpec) hspec
  exact hspec

end Evobase
