import Evobase.AppSpec.Compile
import Evobase.AppSpec.DefinitionSize

/-!
# Definitions close to the limits

The tickets with more commands, each with a guard that compares the note with one text. The
definition is accepted while it fits (`compile_longDefinition`), and its length grows with the
written text once for every command (`length_print_longDefinition`).
-/

namespace Evobase

open Foundation

/-- Close a ticket with a given note. -/
def guardedCommand (id : CommandId) (text : String) : RawCommand where
  commandId := id
  revision := U64.one
  policyRuleId := "rule_t"
  stateMachineId := machineT
  fromState := "open"
  toState := "closed"
  inputs := []
  guards := [⟨fldN, .text text⟩]
  events := []

def longDefinition (ids : List CommandId) (text : String) : RawAppSpec :=
  { ticketDefinition with
    commands := ticketDefinition.commands ++ ids.map fun id => guardedCommand id text }

section Accepted

variable {ids : List CommandId} {text : String}

theorem canonical_longDefinition
    (hids : ((⟨"cmd_close", by decide⟩ : CommandId) :: ids).Pairwise (· < ·)) :
    (longDefinition ids text).canonical = longDefinition ids text := by
  have hticket : ticketDefinition.canonical = ticketDefinition := by decide +kernel
  have hcommands : ticketDefinition.commands.map RawCommand.canonical =
      ticketDefinition.commands := by decide +kernel
  have hsorted : (longDefinition ids text).commands.Pairwise
      fun a b => a.commandId ≤ b.commandId := by
    have hkeys : (longDefinition ids text).commands.map (·.commandId) =
        ⟨"cmd_close", by decide⟩ :: ids := by
      simp [longDefinition, guardedCommand, ticketDefinition, Function.comp_def]
    rw [← hkeys, List.pairwise_map] at hids
    exact hids.imp le_of_lt
  have hguarded : ∀ id, (guardedCommand id text).canonical = guardedCommand id text := by
    intro id
    simp [RawCommand.canonical, guardedCommand, sortBy_of_pairwise]
  have hall : (sortBy (·.commandId) (longDefinition ids text).commands).map
      RawCommand.canonical = (longDefinition ids text).commands := by
    rw [sortBy_of_pairwise _ hsorted, longDefinition, List.map_append, hcommands, List.map_map]
    exact congrArg _ (List.map_congr_left fun id _ => hguarded id)
  calc (longDefinition ids text).canonical
      = { ticketDefinition.canonical with
          commands := (sortBy (·.commandId) (longDefinition ids text).commands).map
            RawCommand.canonical } := rfl
    _ = longDefinition ids text := by rw [hticket, hall]; rfl

theorem checkHeader_longDefinition (hlength : ids.length < maxCommands) :
    checkHeader (longDefinition ids text) = .ok () := by
  have hlimits : checkLimits (longDefinition ids text) = .ok () := by
    simp only [checkLimits, bind_eq_ok, rejectIf_eq_ok, rejectAny_eq_ok, each_eq_ok_iff, not_or,
      gt_iff_lt, not_lt, not_exists, not_and]
    have hmachines : ∀ machine ∈ ticketDefinition.stateMachines,
        machine.states.keys.length ≤ maxStates ∧ machine.terminalStates.keys.length ≤ maxStates := by
      decide +kernel
    have hcount : ticketDefinition.stateMachines.length ≤ maxStateMachines := by decide
    refine ⟨(), hcount, (), ?_, (), hmachines, fun command hcommand => ?_⟩
    · simpa [longDefinition, ticketDefinition] using hlength
    · rcases List.mem_append.1 hcommand with hticket | hguarded
      · obtain rfl := List.mem_singleton.1 hticket
        decide +kernel
      · obtain ⟨id, -, rfl⟩ := List.mem_map.1 hguarded
        simp [guardedCommand, maxCommandInputs, maxGuards, maxEvents]
  have hversion : ticketDefinition.version.val = 2 := rfl
  have hname : checkName ticketDefinition.name "app.name" = .ok () := by decide +kernel
  simp only [checkHeader, bind_eq_ok, rejectIf_eq_ok]
  exact ⟨(), by simp [longDefinition, hversion, formatVersion], (), by simp [longDefinition, hversion],
    (), by simp [longDefinition, ticketDefinition, maxConstraints], (),
    by simp [longDefinition, hversion], (), by simp [longDefinition, hversion], (), hlimits, (),
    by simp [longDefinition, ticketDefinition, maxTables], (),
    by simp [longDefinition, ticketDefinition, maxFields], hname⟩

/-- A guarded command is accepted when its text may be stored. -/
theorem checkCommand_guardedCommand {before : List RawCommand} {id : CommandId}
    (hid : id ∉ before.map (·.commandId)) (htext : text.utf8ByteSize ≤ maxTextBytes) :
    checkCommand ticketDefinition before (guardedCommand id text) = .ok () := by
  have hmachine : ticketDefinition.machine machineT =
      some (ticketDefinition.stateMachines.head (by decide)) := by decide +kernel
  have hpolicy : ticketDefinition.policy "rule_t" =
      some (ticketDefinition.policies.head (by decide)) := by decide +kernel
  set machine := ticketDefinition.stateMachines.head (by decide)
  set policy := ticketDefinition.policies.head (by decide)
  have hbinding : policy.tableId = machine.tableId ∧ policy.ownerField ≠ machine.stateField := by
    decide +kernel
  have hstates : "open" ∈ machine.states.keys ∧ "closed" ∈ machine.states.keys ∧
      "open" ∉ machine.terminalStates.keys ∧ "open" ≠ "closed" := by decide +kernel
  have hfield : ticketDefinition.field machine.tableId fldN =
      some ⟨fldN, "N", false, .text⟩ := by decide +kernel
  have hguard : checkGuard ticketDefinition machine (.invalidCommand id) []
      ⟨fldN, .text text⟩ = .ok () := by
    simp only [checkGuard, hfield, okOr, ok_bind, rejectIf_eq_ok]
    simp [FieldType.isRef, valueMatches, Value.tooLong, htext]
  have hguards : eachAfter (checkGuard ticketDefinition machine (.invalidCommand id)) []
      (guardedCommand id text).guards = .ok () := by
    rw [guardedCommand, eachAfter_cons, hguard]
    rfl
  simp only [checkCommand, bind_eq_ok, rejectIf_eq_ok, okOr_eq_ok, not_or, not_not]
  exact ⟨(), ⟨hid, one_ne_zero⟩, machine, hmachine, policy, hpolicy, (), hbinding, (), hstates, (),
    rfl, (), hguards, rfl⟩

/-- The definition is accepted while it fits. -/
theorem compile_longDefinition
    (hids : ((⟨"cmd_close", by decide⟩ : CommandId) :: ids).Pairwise (· < ·))
    (hlength : ids.length < maxCommands) (htext : text.utf8ByteSize ≤ maxTextBytes)
    (hfits : Fits (longDefinition ids text).toJson) :
    compile (longDefinition ids text) = .ok (longDefinition ids text) := by
  have hticket := wellFormed ticketSpec
  rw [compile_eq_ok_iff, canonical_longDefinition hids]
  refine ⟨checkHeader_longDefinition hlength, ?_, rfl⟩
  have htables : eachAfter checkTable [] ticketDefinition.tables = .ok () := by decide +kernel
  have hreferences : checkReferences ticketDefinition = .ok () := by decide +kernel
  have hrules : checkRules (longDefinition ids text) = .ok () := by
    have hrule : OwnerRolePolicy.Accepted ticketDefinition
        (ticketDefinition.policies.head (by decide)) :=
      hticket.policies _ (List.head_mem _)
    have haccepted : OwnerRolePolicy.Accepted (longDefinition ids text)
        (ticketDefinition.policies.head (by decide)) :=
      ⟨hrule.ruleId, hrule.declared, hrule.revision, hrule.readFields_le, hrule.readRoles_le,
        hrule.writeRoles_le, hrule.submitRoles_le, hrule.owner, hrule.plain⟩
    have hcheck := OwnerRolePolicy.check_eq_ok_iff.2 ⟨haccepted, rfl⟩
    have hpolicies : (longDefinition ids text).policies =
        [ticketDefinition.policies.head (by decide)] := rfl
    have hsubmit : (longDefinition ids text).submitRules = [] := rfl
    simp only [checkRules, hpolicies, hsubmit, eachAfter_cons, eachAfter_nil, hcheck, renameError,
      bind_eq_ok, rejectIf_eq_ok]
    exact ⟨(), by decide, (), ⟨(), ⟨(), by simp, _, rfl, trivial⟩, trivial⟩, trivial⟩
  have hdeclarations : checkDeclarations (longDefinition ids text) = .ok () := by
    have hmachines : eachAfter (checkMachine ticketDefinition) []
        ticketDefinition.stateMachines = .ok () := by decide +kernel
    have hcommands : eachAfter (checkCommand ticketDefinition) []
        (ticketDefinition.commands ++ ids.map fun id => guardedCommand id text) = .ok () := by
      have hclose : checkCommand ticketDefinition [] (ticketDefinition.commands.head (by decide)) =
          .ok () := by decide +kernel
      have hsplit : ticketDefinition.commands = [ticketDefinition.commands.head (by decide)] := rfl
      rw [hsplit, List.singleton_append, eachAfter_cons, hclose, ok_bind, eachAfter_eq_ok_iff]
      intro pre command post heq
      obtain ⟨before, rest, hsplit, rfl, hrest⟩ := List.map_eq_append_iff.1 heq
      obtain ⟨id, after, rfl, rfl, -⟩ := List.map_eq_cons_iff.1 hrest
      refine checkCommand_guardedCommand ?_ htext
      have hnodup : (⟨"cmd_close", by decide⟩ :: (before ++ id :: after) : List CommandId).Nodup :=
        hsplit ▸ hids.imp ne_of_lt
      have hfresh : id ∉ (⟨"cmd_close", by decide⟩ :: before : List CommandId) := by
        rw [← List.cons_append] at hnodup
        exact fun hmem => List.disjoint_of_nodup_append hnodup hmem List.mem_cons_self
      simpa [guardedCommand, ticketDefinition, Function.comp_def] using hfresh
    simp only [checkDeclarations, bind_eq_ok]
    exact ⟨(), hmachines, hcommands⟩
  simp only [checkCanonical, bind_eq_ok]
  exact ⟨(), htables, (), hreferences, (), rfl, (), rfl, _,
    (boundedEncode_eq_ok_iff (RawAppSpec.exact_toJson _)).2 ⟨hfits, rfl⟩, (), hrules, hdeclarations⟩

end Accepted

section Size

variable {ids : List CommandId} {text : String}

def ticketMembers : List (String × Json) :=
  match ticketDefinition.toJson with
  | .obj members => members.dropLast
  | _ => []

theorem toJson_longDefinition (ids : List CommandId) (text : String) :
    (longDefinition ids text).toJson = .obj (ticketMembers ++
      [("commands", .ofList RawCommand.toJson (longDefinition ids text).commands)]) :=
  rfl

theorem nodes_longDefinition (ids : List CommandId) (text : String) :
    (longDefinition ids text).toJson.nodes =
      (longDefinition [] "").toJson.nodes + 24 * ids.length := by
  have hguarded : ∀ id, (guardedCommand id text).toJson.nodes = 24 := by
    intro id
    simp [guardedCommand, RawCommand.toJson, CommandGuard.toJson, Value.toJson, Value.content,
      Identity.toJson, Json.ofFields, Json.present, Json.unlessEmpty, Json.ofList, Json.ofU64,
      Json.nodes, Json.nodesMembers, Json.nodesElements]
  have hsum : ((ids.map fun id => guardedCommand id text).map RawCommand.toJson).map Json.nodes =
      ids.map fun _ => 24 := by
    rw [List.map_map, List.map_map]
    exact List.map_congr_left fun id _ => hguarded id
  have hcommands : ∀ ids text, (longDefinition ids text).commands = ticketDefinition.commands ++
      ids.map fun id => guardedCommand id text := fun _ _ => rfl
  simp only [toJson_longDefinition, Json.nodes, Json.nodesMembers_append, Json.nodesMembers,
    Json.ofList, Json.nodesElements_eq_sum, hcommands, List.map_append, List.sum_append, hsum,
    List.map_nil, List.sum_nil, List.map_const', List.sum_replicate, smul_eq_mul]
  omega

theorem length_print_guardedCommand (id : CommandId) (text : String) :
    (guardedCommand id text).toJson.print.length =
      193 + id.text.utf8ByteSize + (Json.printString text).length := by
  have hguard : (CommandGuard.toJson ⟨fldN, .text text⟩).print.length =
      54 + (Json.printString text).length := by
    have hnames : (Json.printString "field_id").length = 10 ∧
        (Json.printString "equals").length = 8 ∧ (Json.printString "type").length = 6 ∧
        (Json.printString "value").length = 7 ∧ (Json.printString "text").length = 6 ∧
        (Json.printString fldN.text).length = 7 := by decide +kernel
    obtain ⟨hfield, hequals, htype, hvalue, htag, hnote⟩ := hnames
    simp only [CommandGuard.toJson, Value.toJson, Value.tag, Value.content, Identity.toJson,
      Json.ofFields, Json.present, Json.length_print_obj, Json.print_str, hfield, hequals, htype,
      hvalue, htag, hnote, List.map_cons, List.map_nil, List.sum_cons, List.sum_nil,
      List.length_cons, List.length_nil]
    omega
  have hnames : (Json.printString "command_id").length = 12 ∧
      (Json.printString "revision").length = 10 ∧ (Json.printString "policy_rule_id").length = 16 ∧
      (Json.printString "state_machine_id").length = 18 ∧
      (Json.printString "from_state").length = 12 ∧ (Json.printString "to_state").length = 10 ∧
      (Json.printString "guards").length = 8 := by decide +kernel
  have hvalues : (Json.ofU64 ⟨1, by decide, by decide⟩).print.length = 1 ∧
      (Json.printString "rule_t").length = 8 ∧ (Json.printString "machine_t").length = 11 ∧
      (Json.printString "open").length = 6 ∧ (Json.printString "closed").length = 8 := by
    decide +kernel
  obtain ⟨hcommand, hrevision, hpolicy, hmachine, hfrom, hto, hguards⟩ := hnames
  obtain ⟨hone, hrule, hstates, hopen, hclosed⟩ := hvalues
  have htoJson : (guardedCommand id text).toJson = .obj [("command_id", id.toJson),
      ("revision", .ofU64 ⟨1, by decide, by decide⟩), ("policy_rule_id", .str "rule_t"),
      ("state_machine_id", .str "machine_t"), ("from_state", .str "open"),
      ("to_state", .str "closed"), ("guards", .arr [CommandGuard.toJson ⟨fldN,
        .text text⟩])] := rfl
  simp only [htoJson, Json.length_print_obj, Json.length_print_arr, Json.print_str, hcommand,
    hrevision, hpolicy, hmachine, hfrom, hto, hguards, hone, hrule, hstates, hopen, hclosed, hguard,
    id.length_print.1, List.map_cons, List.map_nil, List.sum_cons, List.sum_nil, List.length_cons,
    List.length_nil]
  omega

/-- The written text is in the definition once for every guarded command. -/
theorem length_print_longDefinition (ids : List CommandId) (text : String) :
    (longDefinition ids text).toJson.print.length = (longDefinition [] "").toJson.print.length +
      (ids.map fun id => 194 + id.text.utf8ByteSize + (Json.printString text).length).sum := by
  have hcommands : ∀ ids text, (longDefinition ids text).commands = ticketDefinition.commands ++
      ids.map fun id => guardedCommand id text := fun _ _ => rfl
  have hone : ticketDefinition.commands.length = 1 := rfl
  simp only [toJson_longDefinition, Json.length_print_obj, Json.ofList, Json.length_print_arr,
    hcommands, List.map_append, List.sum_append, List.map_map, List.length_append,
    List.length_map, Function.comp_def, length_print_guardedCommand, List.map_nil, List.sum_nil,
    List.length_nil, hone, List.map_cons, List.sum_cons, List.length_cons]
  have hcomma : (ids.map fun id => 194 + id.text.utf8ByteSize + (Json.printString text).length).sum =
      (ids.map fun id => 193 + id.text.utf8ByteSize + (Json.printString text).length).sum +
        ids.length := by
    clear hcommands
    induction ids with
    | nil => rfl
    | cons id rest ih =>
        rw [List.map_cons, List.map_cons, List.sum_cons, List.sum_cons, ih, List.length_cons]
        omega
  omega

@[irreducible] def controlText (n : Nat) : String := .ofList (List.replicate n (Char.ofNat 1))

theorem length_printString_controlText (n : Nat) :
    (Json.printString (controlText n)).length = 6 * n + 2 := by
  have hescape : (Json.escape (Char.ofNat 1)).length = 6 := by decide
  rw [Json.printString, controlText, String.toList_ofList, List.length_cons, List.length_append,
    List.length_flatMap, List.map_replicate, hescape, List.sum_replicate, smul_eq_mul]
  simp [Nat.mul_comm]

theorem utf8ByteSize_controlText (n : Nat) : (controlText n).utf8ByteSize = n := by
  have hone : (String.utf8EncodeChar (Char.ofNat 1)).length = 1 := by decide
  rw [← Json.length_utf8_toList, controlText, String.toList_ofList, Json.utf8, List.length_flatMap,
    List.map_replicate, hone, List.sum_replicate, smul_eq_mul, mul_one]

def longIds : List CommandId :=
  [⟨"cmd_long_a", by decide⟩, ⟨"cmd_long_b", by decide⟩, ⟨"cmd_long_c", by decide⟩,
    ⟨"cmd_long_d", by decide⟩, ⟨"cmd_long_e", by decide⟩, ⟨"cmd_long_f", by decide⟩,
    ⟨"cmd_long_g", by decide⟩, ⟨"cmd_long_h", by decide⟩, ⟨"cmd_long_i", by decide⟩,
    ⟨"cmd_long_j", by decide⟩, ⟨"cmd_long_k", by decide⟩]

def fullDefinition : RawAppSpec := longDefinition longIds (controlText 15840)

theorem length_print_fullDefinition : fullDefinition.toJson.print.length + 4 = maxBytes := by
  have hbase : (longDefinition [] "").toJson.print.length = 866 := by decide +kernel
  have hids : longIds.map (fun id => id.text.utf8ByteSize) = List.replicate 11 10 := by
    decide +kernel
  have hparts : longIds.map (fun id => 194 + id.text.utf8ByteSize + (6 * 15840 + 2)) =
      (longIds.map fun id => id.text.utf8ByteSize).map fun n => 194 + n + (6 * 15840 + 2) := by
    rw [List.map_map]
    rfl
  rw [fullDefinition, length_print_longDefinition, hbase, length_printString_controlText, hparts,
    hids, List.map_replicate, List.sum_replicate]
  rfl

theorem fits_fullDefinition : Fits fullDefinition.toJson where
  bytes := by
    have hlength := length_print_fullDefinition
    omega
  depth := fullDefinition.neat_toJson.depth.trans (by decide)
  nodes := by
    have hbase : (longDefinition [] "").toJson.nodes = 115 := by decide +kernel
    rw [fullDefinition, nodes_longDefinition, hbase]
    decide

def fullSpec : CheckedAppSpec :=
  ⟨fullDefinition, fullDefinition, compile_longDefinition (by decide +kernel) (by decide)
    (by rw [utf8ByteSize_controlText]; decide) fits_fullDefinition⟩

end Size

end Evobase
