import Evobase.AppSpec.Constraint
import Evobase.AppSpec.Policy

/-!
# State machines and commands of a definition

The checks that a definition makes of its state machines and commands: bounds on their
size before anything else, then that each machine is about a required text field whose
constraints admit its states, and that each command moves between two states of its
machine and writes only plain fields that nothing else owns.
-/

namespace Evobase

open Foundation

/-- The bounds on the sizes of machines and commands. -/
def checkLimits (raw : RawAppSpec) : Except Error Unit := do
  rejectIf (raw.stateMachines.length > maxStateMachines)
    (.limitExceeded "state machines" maxStateMachines)
  rejectIf (raw.commands.length > maxCommands) (.limitExceeded "commands" maxCommands)
  rejectAny raw.stateMachines (fun machine => machine.states.keys.length > maxStates ∨
      machine.terminalStates.keys.length > maxStates)
    fun _ => .limitExceeded "states" maxStates
  each (fun command => do
    rejectIf (command.inputs.length > maxCommandInputs)
      (.limitExceeded "command inputs" maxCommandInputs)
    rejectIf (command.guards.length > maxGuards) (.limitExceeded "command guards" maxGuards)
    rejectIf (command.events.length > maxEvents) (.limitExceeded "command events" maxEvents)
    rejectIf (∃ input ∈ command.inputs, input.constraints.length > 8)
      (.limitExceeded "input constraints" 8)
    rejectIf (∃ event ∈ command.events, event.fields.keys.length > maxCommandInputs)
      (.limitExceeded "event fields" maxCommandInputs)) raw.commands

/-- The value is empty or of the type; no command writes a reference. -/
def valueMatches (fieldType : FieldType) (value : Value) : Bool :=
  match fieldType, value with
  | _, .blank | _, .null => true
  | .text, .text _ | .integer, .integer _ | .money, .money _ | .bool, .bool _ => true
  | _, _ => false

def Value.tooLong : Value → Bool
  | .text content => content.utf8ByteSize > maxTextBytes
  | _ => false

def invalidState (state : String) : Bool :=
  state = "" || state.utf8ByteSize > 64 || state.toList.any isControl

namespace RawAppSpec

/-- The field is a required text of the table. -/
def isRequiredText (spec : RawAppSpec) (table : TableId) (field : FieldId) : Bool :=
  match spec.field table field with
  | some f => f.fieldType = .text && f.required
  | none => false

def machine (spec : RawAppSpec) (id : StateMachineId) : Option RawStateMachine :=
  spec.stateMachines.find? fun machine => machine.machineId = id

def policy (spec : RawAppSpec) (ruleId : String) : Option RawOwnerRolePolicy :=
  spec.policies.find? fun policy => policy.ruleId = ruleId

def command (spec : RawAppSpec) (id : CommandId) : Option RawCommand :=
  spec.commands.find? fun command => command.commandId = id

/-- The field of the table holds or refers to a captured price. -/
def isCaptured (spec : RawAppSpec) (table : TableId) (field : FieldId) : Prop :=
  ∃ capture ∈ spec.captureRules, capture.lineTable = table ∧
    (capture.capturedPriceField = field ∨ capture.productRefField = field)

instance (spec : RawAppSpec) (table : TableId) (field : FieldId) :
    Decidable (spec.isCaptured table field) :=
  inferInstanceAs (Decidable (∃ _ ∈ _, _))

theorem machine_some {spec : RawAppSpec} {id : StateMachineId} {m : RawStateMachine}
    (h : spec.machine id = some m) : m ∈ spec.stateMachines ∧ m.machineId = id :=
  ⟨List.mem_of_find?_eq_some h, by simpa using List.find?_some h⟩

theorem policy_some {spec : RawAppSpec} {ruleId : String} {p : RawOwnerRolePolicy}
    (h : spec.policy ruleId = some p) : p ∈ spec.policies ∧ p.ruleId = ruleId :=
  ⟨List.mem_of_find?_eq_some h, by simpa using List.find?_some h⟩

theorem command_some {spec : RawAppSpec} {id : CommandId} {c : RawCommand}
    (h : spec.command id = some c) : c ∈ spec.commands ∧ c.commandId = id :=
  ⟨List.mem_of_find?_eq_some h, by simpa using List.find?_some h⟩

end RawAppSpec

def checkMachine (spec : RawAppSpec) (before : List RawStateMachine) (machine : RawStateMachine) :
    Except Error Unit := do
  let invalid := Error.invalidStateMachine machine.machineId
  rejectIf (machine.machineId ∈ before.map (·.machineId) ∨
      machine.tableId ∈ before.map (·.tableId))
    (invalid "duplicate machine identity or table binding")
  rejectIf (machine.states.keys = [] ∨ (∃ state ∈ machine.states.keys, invalidState state = true) ∨
      ¬ ∀ state ∈ machine.terminalStates.keys, state ∈ machine.states.keys)
    (invalid "invalid finite states or terminal subset")
  rejectIf (spec.isRequiredText machine.tableId machine.stateField = false)
    (invalid "state field must be required text")
  rejectAny machine.states.keys (fun state => ∃ rule ∈ spec.constraints,
      rule.tableId = machine.tableId ∧ rule.fieldId = machine.stateField ∧
        rule.constraint.accepts (.text state) = false)
    fun _ => invalid "declared state violates a field constraint"

/-- What a checked machine has been checked for. -/
structure MachineAccepted (spec : RawAppSpec) (machine : RawStateMachine) : Prop where
  states_ne : machine.states.keys ≠ []
  names : ∀ state ∈ machine.states.keys, invalidState state = false
  terminal : ∀ state ∈ machine.terminalStates.keys, state ∈ machine.states.keys
  stateField : spec.isRequiredText machine.tableId machine.stateField = true
  admitted : ∀ state ∈ machine.states.keys, ∀ rule ∈ spec.constraints,
    rule.tableId = machine.tableId → rule.fieldId = machine.stateField →
      rule.constraint.accepts (.text state) = true

theorem checkMachine_eq_ok_iff {spec : RawAppSpec} {before : List RawStateMachine}
    {machine : RawStateMachine} :
    checkMachine spec before machine = .ok () ↔
      machine.machineId ∉ before.map (·.machineId) ∧ machine.tableId ∉ before.map (·.tableId) ∧
        MachineAccepted spec machine := by
  simp only [checkMachine, bind_eq_ok, rejectIf_eq_ok, rejectAny_eq_ok, not_or, not_exists,
    not_and, not_not, Bool.not_eq_false, Bool.not_eq_true]
  constructor
  · rintro ⟨-, ⟨hid, htable⟩, -, ⟨hne, hnames, hterminal⟩, -, hfield, hadmitted⟩
    exact ⟨hid, htable, hne, hnames, hterminal, hfield, hadmitted⟩
  · rintro ⟨hid, htable, hne, hnames, hterminal, hfield, hadmitted⟩
    exact ⟨(), ⟨hid, htable⟩, (), ⟨hne, hnames, hterminal⟩, (), hfield, hadmitted⟩

def checkInput (spec : RawAppSpec) (machine : RawStateMachine) (policy : RawOwnerRolePolicy)
    (invalid : String → Error) (before : List CommandInput) (input : CommandInput) :
    Except Error Unit := do
  let field ← okOr (invalid "unknown input field") (spec.field machine.tableId input.fieldId)
  rejectIf (input.fieldId ∈ before.map (·.fieldId) ∨ input.fieldId = machine.stateField ∨
      input.fieldId = policy.ownerField ∨ field.fieldType.isRef = true ∨
      spec.isCaptured machine.tableId input.fieldId)
    (invalid "duplicate or immutable input field")
  each (fun constraint => renameError (fun _ => invalid "invalid input constraint")
    (constraint.checkType field.fieldType)) input.constraints

def checkGuard (spec : RawAppSpec) (machine : RawStateMachine) (invalid : String → Error)
    (before : List CommandGuard) (guard : CommandGuard) : Except Error Unit := do
  let field ← okOr (invalid "unknown guard field") (spec.field machine.tableId guard.fieldId)
  rejectIf (guard.fieldId ∈ before.map (·.fieldId) ∨ field.fieldType.isRef = true ∨
      valueMatches field.fieldType guard.equals = false ∨ guard.equals.tooLong = true)
    (invalid "duplicate or incompatible equality guard")

def checkEvent (policy : RawOwnerRolePolicy) (invalid : String → Error)
    (before : List RawEventIntent) (event : RawEventIntent) : Except Error Unit :=
  rejectIf (event.eventId ∈ before.map (·.eventId) ∨
      ∃ field ∈ event.fields.keys, field ∉ policy.readFields.keys)
    (invalid "duplicate event or non-readable payload field")

def checkCommand (spec : RawAppSpec) (before : List RawCommand) (command : RawCommand) :
    Except Error Unit := do
  let invalid := Error.invalidCommand command.commandId
  rejectIf (command.commandId ∈ before.map (·.commandId) ∨ command.revision.val = 0)
    (invalid "duplicate command identity or zero revision")
  let machine ← okOr (invalid "unknown state machine") (spec.machine command.stateMachineId)
  let policy ← okOr (invalid "unknown policy") (spec.policy command.policyRuleId)
  rejectIf (policy.tableId ≠ machine.tableId ∨ policy.ownerField = machine.stateField)
    (invalid "policy and state bindings do not match")
  rejectIf (command.fromState ∉ machine.states.keys ∨ command.toState ∉ machine.states.keys ∨
      command.fromState ∈ machine.terminalStates.keys ∨ command.fromState = command.toState)
    (invalid "unknown, terminal, or identical transition states")
  eachAfter (checkInput spec machine policy invalid) [] command.inputs
  eachAfter (checkGuard spec machine invalid) [] command.guards
  eachAfter (checkEvent policy invalid) [] command.events

def checkDeclarations (spec : RawAppSpec) : Except Error Unit := do
  eachAfter (checkMachine spec) [] spec.stateMachines
  eachAfter (checkCommand spec) [] spec.commands

/-- What a checked command has been checked for, given its machine and its policy. -/
structure CommandAccepted (spec : RawAppSpec) (command : RawCommand) (machine : RawStateMachine)
    (policy : RawOwnerRolePolicy) : Prop where
  revision : command.revision.val ≠ 0
  hasMachine : spec.machine command.stateMachineId = some machine
  hasPolicy : spec.policy command.policyRuleId = some policy
  table : policy.tableId = machine.tableId
  owner_ne_state : policy.ownerField ≠ machine.stateField
  from_mem : command.fromState ∈ machine.states.keys
  to_mem : command.toState ∈ machine.states.keys
  from_live : command.fromState ∉ machine.terminalStates.keys
  from_ne_to : command.fromState ≠ command.toState
  inputs : ∀ input ∈ command.inputs, ∃ field,
    spec.field machine.tableId input.fieldId = some field ∧
      input.fieldId ≠ machine.stateField ∧ input.fieldId ≠ policy.ownerField ∧
      field.fieldType.isRef = false ∧ ¬ spec.isCaptured machine.tableId input.fieldId
  guards : ∀ guard ∈ command.guards, ∃ field,
    spec.field machine.tableId guard.fieldId = some field ∧ field.fieldType.isRef = false
  events : ∀ event ∈ command.events, ∀ field ∈ event.fields.keys, field ∈ policy.readFields.keys

theorem of_checkCommand {spec : RawAppSpec} {before : List RawCommand} {command : RawCommand}
    (h : checkCommand spec before command = .ok ()) :
    command.commandId ∉ before.map (·.commandId) ∧
      ∃ machine policy, CommandAccepted spec command machine policy := by
  simp only [checkCommand, bind_eq_ok, rejectIf_eq_ok, okOr_eq_ok, not_or, not_not] at h
  obtain ⟨-, ⟨hid, hrevision⟩, machine, hmachine, policy, hpolicy, -, ⟨htable, howner⟩, -,
    ⟨hfrom, hto, hlive, hne⟩, ⟨⟩, hinputs, ⟨⟩, hguards, hevents⟩ := h
  refine ⟨hid, machine, policy, hrevision, hmachine, hpolicy, htable, howner, hfrom, hto, hlive,
    hne, ?_, ?_, ?_⟩
  · intro input hinput
    obtain ⟨seen, hvisit⟩ := visit_of_eachAfter hinputs hinput
    simp only [checkInput, bind_eq_ok, okOr_eq_ok, rejectIf_eq_ok, not_or, Bool.not_eq_true]
      at hvisit
    obtain ⟨field, hfield, -, ⟨-, hstate, howner, href, hcaptured⟩, -⟩ := hvisit
    exact ⟨field, hfield, hstate, howner, href, hcaptured⟩
  · intro guard hguard
    obtain ⟨seen, hvisit⟩ := visit_of_eachAfter hguards hguard
    simp only [checkGuard, bind_eq_ok, okOr_eq_ok, rejectIf_eq_ok, not_or, Bool.not_eq_true]
      at hvisit
    obtain ⟨field, hfield, -, href, -⟩ := hvisit
    exact ⟨field, hfield, href⟩
  · intro event hevent
    obtain ⟨seen, hvisit⟩ := visit_of_eachAfter hevents hevent
    simp only [checkEvent, rejectIf_eq_ok, not_or, not_exists, not_and, not_not] at hvisit
    exact hvisit.2

/-- What a definition with checked declarations has been checked for. -/
structure DeclarationsAccepted (spec : RawAppSpec) : Prop where
  machines : ∀ machine ∈ spec.stateMachines, MachineAccepted spec machine
  machineIds : (spec.stateMachines.map (·.machineId)).Nodup
  machineTables : (spec.stateMachines.map (·.tableId)).Nodup
  commands : ∀ command ∈ spec.commands,
    ∃ machine policy, CommandAccepted spec command machine policy
  commandIds : (spec.commands.map (·.commandId)).Nodup

theorem of_checkDeclarations {spec : RawAppSpec} (h : checkDeclarations spec = .ok ()) :
    DeclarationsAccepted spec := by
  simp only [checkDeclarations, bind_eq_ok] at h
  obtain ⟨⟨⟩, hmachines, hcommands⟩ := h
  refine ⟨?_, ?_, ?_, ?_, ?_⟩
  · intro machine hmem
    obtain ⟨before, hvisit⟩ := visit_of_eachAfter hmachines hmem
    exact (checkMachine_eq_ok_iff.1 hvisit).2.2
  · exact nodup_of_eachAfter _ (fun before m hm => (checkMachine_eq_ok_iff.1 hm).1) hmachines
  · exact nodup_of_eachAfter _ (fun before m hm => (checkMachine_eq_ok_iff.1 hm).2.1) hmachines
  · intro command hmem
    obtain ⟨before, hvisit⟩ := visit_of_eachAfter hcommands hmem
    exact (of_checkCommand hvisit).2
  · exact nodup_of_eachAfter _ (fun before c hc => (of_checkCommand hc).1) hcommands

end Evobase
