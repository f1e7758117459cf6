import Evobase.AppSpec.Transition

/-!
# The menu of commands

`availableCommandRecords` lists, for a caller, the commands with the records that they can
be run on. The list and the execution of a request look at authority, policy, state and
guards in code of their own; `available_agrees` says that they agree, for every command,
record and request.

The two sides meet in `OffersFor`, what the records of a listed command have been found with, and
in `PreparedFor`, what a prepared request has been checked for. A record that is listed can still
be refused for an input of the request.
-/

namespace Evobase

open Foundation

/-- A record of the menu: the caller may read and write it, and its state and the guards
allow the command. -/
def Eligible (policy : OwnerRolePolicy) (readContext context : TrustedContext)
    (command : RawCommand) (machine : RawStateMachine) (row : RawRecord) : Prop :=
  policy.allows readContext row .read ∧ policy.allows context row .write ∧
    checkTransition command machine row = .ok ()

instance (policy : OwnerRolePolicy) (readContext context : TrustedContext)
    (command : RawCommand) (machine : RawStateMachine) (row : RawRecord) :
    Decidable (Eligible policy readContext context command machine row) :=
  inferInstanceAs (Decidable (_ ∧ _ ∧ _))

/-- The records that a command is offered on. -/
def eligibleRecords (readContext context : TrustedContext) (scope : Scope) (spec : RawAppSpec)
    (facts : CheckedRecords) (command : RawCommand) : Exec CommandError (List RecordId) := do
  let machine ← Exec.expect "checked machine" (spec.machine command.stateMachineId)
  let rawPolicy ← Exec.expect "checked policy" (spec.policy command.policyRuleId)
  let policy ← Exec.ofExcept .policy (OwnerRolePolicy.check spec rawPolicy)
  Exec.lift .policy (policy.checkScope scope facts)
  .ok ((facts.records.filter (Eligible policy readContext context command machine)).map (·.id))

/-- The commands that a caller is offered, with their records. The authority is asked for
twice, so the answers of two moments can meet here. -/
def availableCommandRecords (readHost host : SessionVerifier) (caller : Caller)
    (spec : RawAppSpec) (facts : CheckedRecords) :
    Exec CommandError (List (RawCommand × List RecordId)) := do
  let readContext ← Exec.ofExcept .authority (readHost.resolve caller .read)
  let context ← Exec.ofExcept .authority (host.resolve caller .write)
  rejectIf (readContext ≠ context) (.fail (.authority .revoked))
  rejectIf (caller.scope.appId ≠ spec.appId ∨ facts.scope ≠ caller.scope)
    (.fail (.policy .scopeMismatch))
  spec.commands.foldlM (fun available command => do
    let eligible ← eligibleRecords readContext context caller.scope spec facts command
    .ok (if eligible = [] then available else available ++ [(command, eligible)])) []

section Listed

variable {readHost host : SessionVerifier} {caller : Caller} {spec : RawAppSpec}
  {facts : CheckedRecords} {out : List (RawCommand × List RecordId)}
  {readContext context : TrustedContext} {command : RawCommand} {ids : List RecordId}

/-- What the records of a command have been found with. -/
structure OffersFor (readContext context : TrustedContext) (scope : Scope) (spec : RawAppSpec)
    (facts : CheckedRecords) (command : RawCommand) (machine : RawStateMachine)
    (rule : RawOwnerRolePolicy) (ids : List RecordId) : Prop where
  hasMachine : spec.machine command.stateMachineId = some machine
  hasPolicy : spec.policy command.policyRuleId = some rule
  ids_eq : ids = (facts.records.filter
    (Eligible ⟨spec, rule⟩ readContext context command machine)).map (·.id)

theorem of_eligibleRecords {scope : Scope}
    (h : eligibleRecords readContext context scope spec facts command = .ok ids) :
    ∃ machine rule, OffersFor readContext context scope spec facts command machine rule ids := by
  simp only [eligibleRecords, bind_eq_ok, Exec.expect_eq_ok, Exec.ofExcept_eq_ok,
    OwnerRolePolicy.check_eq_ok_iff, Except.ok.injEq] at h
  obtain ⟨machine, hmachine, rule, hpolicy, policy, ⟨-, rfl⟩, -, -, rfl⟩ := h
  exact ⟨machine, rule, hmachine, hpolicy, rfl⟩

/-- The menu is the commands of the definition, in order, with their records, less those
without a record. -/
theorem of_availableCommandRecords
    (h : availableCommandRecords readHost host caller spec facts = .ok out) :
    ∃ context offers, readHost.resolve caller .read = .ok context ∧
      host.resolve caller .write = .ok context ∧ caller.scope.appId = spec.appId ∧
      facts.scope = caller.scope ∧
      List.Forall₂ (fun command ids =>
        eligibleRecords context context caller.scope spec facts command = .ok ids)
        spec.commands offers ∧
      out = (spec.commands.zip offers).filter fun entry => entry.2 ≠ [] := by
  simp only [availableCommandRecords, bind_eq_ok, Exec.ofExcept_eq_ok, rejectIf_eq_ok, not_or,
    not_not] at h
  obtain ⟨context, hread, _, hwrite, -, rfl, -, ⟨happ, hscope⟩, hfold⟩ := h
  have hlisted := inv_of_foldlM (fun before available => ∃ offers, List.Forall₂ (fun command ids =>
      eligibleRecords context context caller.scope spec facts command = .ok ids) before offers ∧
      available = (before.zip offers).filter fun entry => entry.2 ≠ []) hfold ⟨[], .nil, rfl⟩ ?_
  · obtain ⟨offers, hoffers, hout⟩ := hlisted
    exact ⟨context, offers, hread, hwrite, happ, hscope, hoffers, hout⟩
  · rintro pre command post - available next ⟨offers, hoffers, rfl⟩ hstep
    simp only [bind_eq_ok, Except.ok.injEq] at hstep
    obtain ⟨ids, hids, rfl⟩ := hstep
    refine ⟨offers ++ [ids], List.rel_append hoffers (.cons hids .nil), ?_⟩
    rw [List.zip_append hoffers.length_eq, List.filter_append]
    by_cases hempty : ids = [] <;> simp [hempty]

end Listed

section Refusals

variable {host : SessionVerifier} {caller : Caller} {spec : RawAppSpec} {facts : CheckedRecords}
  {request : RawCommandRequest} {prepared : PreparedCommand} {command : RawCommand}
  {machine : RawStateMachine} {rule : RawOwnerRolePolicy} {context : TrustedContext}
  {row : RawRecord}

theorem checkRequest_ne_denied :
    checkRequest spec command machine request ≠ .error (.fail (.policy .denied)) := by
  have hinput : ∀ entry, checkRequestInput spec command machine entry ≠
      .error (.fail (.policy .denied)) := by
    intro entry hentry
    simp [checkRequestInput, bind_eq_error] at hentry
  have hinputs : each (checkRequestInput spec command machine) request.inputs.entries ≠
      .error (.fail (.policy .denied)) := by
    intro hcheck
    obtain ⟨entry, -, hentry⟩ := exists_of_each_eq_error hcheck
    exact hinput entry hentry
  have hrequired : rejectAny command.inputs
      (fun input => input.required = true ∧ request.inputs.get? input.fieldId = none)
      (fun input => Halt.fail (CommandError.invalidInput (some input.fieldId)
        "required input is absent")) ≠ .error (.fail (.policy .denied)) := by
    intro hcheck
    obtain ⟨input, -, -, herror⟩ := exists_of_rejectAny_eq_error hcheck
    cases herror
  intro h
  simp [checkRequest, bind_eq_error, hinputs, hrequired] at h

theorem checkScope_ne_denied {policy : OwnerRolePolicy} {scope : Scope} :
    policy.checkScope scope facts ≠ .error (.fail .denied) := by
  intro h
  simp [OwnerRolePolicy.checkScope, bind_eq_error] at h

theorem check_ne_denied : OwnerRolePolicy.check spec rule ≠ .error .denied := by
  intro h
  simp [OwnerRolePolicy.check, bind_eq_error] at h

theorem prepareCommand_ne_denied (hcommand : spec.command request.commandId = some command)
    (hmachine : spec.machine command.stateMachineId = some machine)
    (hpolicy : spec.policy command.policyRuleId = some rule)
    (hresolve : host.resolve caller .write = .ok context)
    (hrow : facts.find machine.tableId request.recordId = some row)
    (hallows : OwnerRolePolicy.allows ⟨spec, rule⟩ context row .write) :
    prepareCommand host caller spec facts request ≠ .error (.fail (.policy .denied)) := by
  rw [prepareCommand_eq]
  intro h
  rcases bind_eq_error.1 h with h | ⟨⟨_, _, _, _⟩, -, h⟩
  · simp only [authorizeCommand, hresolve, hcommand, hmachine, hpolicy, Exec.ofExcept_eq_error,
      Exec.expect, okOr, ok_bind, hrow, bind_eq_error, rejectIf_eq_error, Exec.lift_eq_fail,
      Halt.fail.injEq, CommandError.policy.injEq, reduceCtorEq, and_false, false_or, exists_false,
      or_false, exists_eq_right, Exec.ofExcept_eq_ok, OwnerRolePolicy.check_eq_ok_iff] at h
    obtain ⟨_, hcontext, -, -, ⟨_, hcheck, rfl⟩ | ⟨_, ⟨-, rfl⟩, hscope | ⟨-, -, hdenied, -⟩⟩⟩ := h
    · exact check_ne_denied hcheck
    · exact checkScope_ne_denied hscope
    · obtain rfl := Except.ok.inj hcontext
      exact hdenied hallows
  · rcases bind_eq_error.1 h with h | ⟨_, -, h⟩
    · exact checkRequest_ne_denied h
    · cases h

/-- A refusal that the menu promises not to meet: of the caller, of the state of the record or
of a guard. -/
def RefusesOffer : Halt CommandError → Prop
  | .fail (.policy .denied) | .fail (.invalidTransition _ _) | .fail (.guardFailed _) => True
  | _ => False

/-- A transition whose state and guards have been checked is refused for its inputs or its
revision only. -/
theorem decideCommand_not_refusesOffer (hspec : WellFormed spec)
    (h : PreparedFor host caller spec facts request prepared) (hfacts : facts.ValidFor spec)
    (hrow : facts.find prepared.machine.tableId request.recordId = some row)
    (hcheck : checkTransition prepared.command prepared.machine row = .ok ())
    {dataRevision : U64} {halt : Halt CommandError}
    (hdecide : decideCommand prepared dataRevision = .error halt) : ¬ RefusesOffer halt := by
  obtain ⟨hvalid, -⟩ := (validFor_iff hspec).1 hfacts
  by_cases hrevision : dataRevision.val = 0
  · rw [decideCommand, rejectIf, if_pos hrevision, error_bind] at hdecide
    cases hdecide
    exact id
  · have hpos : 0 < dataRevision.val := by
      have := dataRevision.2
      omega
    obtain ⟨e, rfl, hrefuses⟩ := (decideCommand_outcome hspec h hfacts hpos).2 halt hdecide
    have hproject : ∀ proposed intent (error : CommandError),
        projectEvent proposed intent ≠ .error (.fail error) := by
      intro proposed intent error hproject
      simp only [projectEvent, bind_eq_error, reduceCtorEq, and_false, exists_false,
        or_false] at hproject
      obtain ⟨field, -, hfield⟩ := exists_of_mapM_eq_error hproject
      simp [bind_eq_error] at hfield
    have hevents : ∀ proposed (error : CommandError),
        prepared.command.events.mapM (projectEvent proposed) ≠ .error (.fail error) := by
      intro proposed error hevents
      obtain ⟨intent, -, hintent⟩ := exists_of_mapM_eq_error hevents
      exact hproject _ _ _ hintent
    rw [decideCommand_eq h hvalid.keys hrow hpos, hcheck, ok_bind] at hdecide
    simp only [bind_eq_error, Exec.lift_eq_fail, Exec.expect_eq_error, rejectIf_eq_error,
      hevents, reduceCtorEq, and_false, exists_false, or_false, false_or] at hdecide
    rcases hdecide with ⟨error, -, rfl⟩ | ⟨_, -, _, -, -, hdenied⟩
    · exact id
    · cases hdenied
      exact hrefuses.elim

end Refusals

def Offered (out : List (RawCommand × List RecordId)) (command : RawCommand) (id : RecordId) :
    Prop :=
  ∃ ids, (command, ids) ∈ out ∧ id ∈ ids

def RawCommandRequest.IsFor (request : RawCommandRequest) (command : RawCommand)
    (row : RawRecord) : Prop :=
  request.commandId = command.commandId ∧ request.recordId = row.id

/-- A menu and the executor agree about a record, for the authority of the menu. -/
structure MenuAgrees (context : TrustedContext) (spec : RawAppSpec) (facts : CheckedRecords)
    (out : List (RawCommand × List RecordId)) (command : RawCommand) (rule : RawOwnerRolePolicy)
    (row : RawRecord) : Prop where
  offered : Offered out command row.id → ∀ (host : SessionVerifier) (caller : Caller)
    (request : RawCommandRequest), host.resolve caller .write = .ok context →
    request.IsFor command row →
      prepareCommand host caller spec facts request ≠ .error (.fail (.policy .denied)) ∧
      ∀ prepared, prepareCommand host caller spec facts request = .ok prepared →
        ∀ dataRevision halt, decideCommand prepared dataRevision = .error halt →
          ¬ RefusesOffer halt
  hidden : ¬ Offered out command row.id →
    OwnerRolePolicy.allows ⟨spec, rule⟩ context row .read → ∀ (host : SessionVerifier)
    (caller : Caller) (request : RawCommandRequest), host.resolve caller .write = .ok context →
    request.IsFor command row → ∀ prepared dataRevision batch,
      prepareCommand host caller spec facts request = .ok prepared →
        decideCommand prepared dataRevision ≠ .ok batch

section Menu

variable {readHost host : SessionVerifier} {caller : Caller} {spec : RawAppSpec}
  {facts : CheckedRecords} {out : List (RawCommand × List RecordId)} {command : RawCommand}
  {machine : RawStateMachine} {rule : RawOwnerRolePolicy} {context : TrustedContext}
  {row : RawRecord}

theorem command_of_mem (hspec : WellFormed spec) (h : command ∈ spec.commands) :
    spec.command command.commandId = some command :=
  find?_key_eq_some hspec.declarations.commandIds h

/-- A command is offered on exactly the records that are eligible for it. -/
theorem offered_iff (hspec : WellFormed spec) (hfacts : facts.ValidFor spec) {scope : Scope}
    {offers : List (List RecordId)}
    (hoffers : List.Forall₂ (fun command ids =>
      eligibleRecords context context scope spec facts command = .ok ids) spec.commands offers)
    (hcommand : command ∈ spec.commands)
    (haccepted : CommandAccepted spec command machine rule) (hrow : row ∈ facts.records)
    (htable : row.tableId = machine.tableId) :
    Offered ((spec.commands.zip offers).filter fun entry => entry.2 ≠ []) command row.id ↔
      Eligible ⟨spec, rule⟩ context context command machine row := by
  have hkeys := ((validFor_iff hspec).1 hfacts).1.keys
  have hids : ∀ ids, eligibleRecords context context scope spec facts command = .ok ids →
      (row.id ∈ ids ↔ Eligible ⟨spec, rule⟩ context context command machine row) := by
    intro ids hids
    obtain ⟨machine', rule', hmachine, hpolicy, rfl⟩ := of_eligibleRecords hids
    obtain rfl := Option.some.inj (hmachine.symm.trans haccepted.hasMachine)
    obtain rfl := Option.some.inj (hpolicy.symm.trans haccepted.hasPolicy)
    constructor
    · intro hmem
      obtain ⟨other, hother, hid⟩ := List.mem_map.1 hmem
      obtain ⟨hotherMem, heligible⟩ : other ∈ facts.records ∧
          Eligible ⟨spec, rule'⟩ context context command machine' other := by
        simpa using hother
      have hotherTable : other.tableId = row.tableId :=
        heligible.1.2.1.trans (haccepted.table.trans htable.symm)
      rwa [List.inj_on_of_nodup_map hkeys hotherMem hrow
        (key_eq_key_iff.2 ⟨hotherTable, hid⟩)] at heligible
    · intro heligible
      exact List.mem_map.2 ⟨row, by simpa using ⟨hrow, heligible⟩, rfl⟩
  constructor
  · rintro ⟨ids, hentry, hmem⟩
    have hzip := (List.mem_filter.1 hentry).1
    exact (hids ids (List.forall₂_zip hoffers hzip)).1 hmem
  · intro heligible
    obtain ⟨ids, hzip⟩ := exists_mem_zip_of_forall₂ hoffers hcommand
    have hmem := (hids ids (List.forall₂_zip hoffers hzip)).2 heligible
    exact ⟨ids, List.mem_filter.2 ⟨hzip, by simpa using List.ne_nil_of_mem hmem⟩, hmem⟩

theorem menuAgrees (hspec : WellFormed spec) (hfacts : facts.ValidFor spec)
    (hcommand : command ∈ spec.commands) (haccepted : CommandAccepted spec command machine rule)
    (hrow : row ∈ facts.records) (htable : row.tableId = machine.tableId)
    (hoffered : Offered out command row.id ↔
      Eligible ⟨spec, rule⟩ context context command machine row) :
    MenuAgrees context spec facts out command rule row := by
  have hkeys := ((validFor_iff hspec).1 hfacts).1.keys
  have hfound : ∀ request : RawCommandRequest, request.IsFor command row →
      spec.command request.commandId = some command ∧
        facts.find machine.tableId request.recordId = some row := by
    rintro request ⟨hid, hrecord⟩
    rw [hid, hrecord]
    exact ⟨command_of_mem hspec hcommand, (find_eq_some_iff hkeys).2 ⟨hrow, htable, rfl⟩⟩
  have hprepared : ∀ {host caller request prepared}, request.IsFor command row →
      PreparedFor host caller spec facts request prepared → prepared.command = command ∧
        prepared.machine = machine ∧ prepared.policy = ⟨spec, rule⟩ := by
    intro host caller request prepared hfor h
    have hsame := Option.some.inj (h.hasCommand.symm.trans (hfound request hfor).1)
    have hmachine := h.hasMachine
    have hpolicy := h.hasPolicy
    rw [hsame] at hmachine hpolicy
    refine ⟨hsame, Option.some.inj (hmachine.symm.trans haccepted.hasMachine), ?_⟩
    rw [← h.checkedFor, ← Option.some.inj (hpolicy.symm.trans haccepted.hasPolicy)]
  constructor
  · intro hlisted host caller request hresolve hfor
    obtain ⟨-, hwrite, hcheck⟩ := hoffered.1 hlisted
    obtain ⟨hspecCommand, hfind⟩ := hfound request hfor
    refine ⟨prepareCommand_ne_denied hspecCommand haccepted.hasMachine haccepted.hasPolicy hresolve
      hfind hwrite, fun prepared hprepare dataRevision halt hdecide => ?_⟩
    have h := prepareCommand_eq_ok_iff.1 hprepare
    obtain ⟨hc, hm, -⟩ := hprepared hfor h
    exact decideCommand_not_refusesOffer hspec h hfacts (by rwa [hm]) (by rwa [hc, hm]) hdecide
  · intro hunlisted hread host caller request hresolve hfor prepared dataRevision batch hprepare
      hdecide
    have h := prepareCommand_eq_ok_iff.1 hprepare
    obtain ⟨hc, hm, hp⟩ := hprepared hfor h
    obtain ⟨found, hfind, hallows⟩ := h.row
    obtain rfl : found = row := by
      rw [hm, (hfound request hfor).2] at hfind
      exact (Option.some.inj hfind).symm
    refine hunlisted (hoffered.2 ⟨hread, ?_, ?_⟩)
    · have hsame := Except.ok.inj (h.resolved.symm.trans hresolve)
      rwa [hp, hsame] at hallows
    · simp only [decideCommand, h.facts_eq, h.request_eq, hm, (hfound request hfor).2, hc,
        bind_eq_ok, Exec.expect_eq_ok, Option.some.injEq] at hdecide
      obtain ⟨-, -, _, rfl, ⟨⟩, hcheck, -⟩ := hdecide
      exact hcheck

/-- What an entry of the menu says. -/
theorem of_mem_menu (hspec : WellFormed spec) (hfacts : facts.ValidFor spec) {scope : Scope}
    {offers : List (List RecordId)}
    (hoffers : List.Forall₂ (fun command ids =>
      eligibleRecords context context scope spec facts command = .ok ids) spec.commands offers)
    {ids : List RecordId}
    (hmem : (command, ids) ∈ (spec.commands.zip offers).filter fun entry => entry.2 ≠ []) :
    command ∈ spec.commands ∧ ids.Nodup ∧ ids ≠ [] ∧
      ∀ id ∈ ids, ∃ machine, spec.machine command.stateMachineId = some machine ∧
        ∃ row ∈ facts.records, row.tableId = machine.tableId ∧ row.id = id := by
  obtain ⟨hzip, hne⟩ := List.mem_filter.1 hmem
  have hcommand := (List.of_mem_zip hzip).1
  obtain ⟨machine, rule, hmachine, hpolicy, rfl⟩ :=
    of_eligibleRecords (List.forall₂_zip hoffers hzip)
  obtain ⟨machine', rule', haccepted⟩ := hspec.declarations.commands command hcommand
  obtain rfl := Option.some.inj (hmachine.symm.trans haccepted.hasMachine)
  obtain rfl := Option.some.inj (hpolicy.symm.trans haccepted.hasPolicy)
  have hkeys := ((validFor_iff hspec).1 hfacts).1.keys
  have heligible : ∀ row, row ∈ facts.records.filter
      (Eligible ⟨spec, rule⟩ context context command machine) →
      row ∈ facts.records ∧ row.tableId = machine.tableId := by
    intro row hrow
    obtain ⟨hrow, heligible⟩ := List.mem_filter.1 hrow
    exact ⟨hrow, (of_decide_eq_true heligible).1.2.1.trans haccepted.table⟩
  refine ⟨hcommand, ?_, by simpa using hne, fun id hid => ?_⟩
  · refine (List.nodup_map_iff_inj_on ?_).2 fun a ha b hb hid => ?_
    · exact (List.Nodup.of_map _ hkeys).filter _
    · obtain ⟨haMem, haTable⟩ := heligible a ha
      obtain ⟨hbMem, hbTable⟩ := heligible b hb
      exact List.inj_on_of_nodup_map hkeys haMem hbMem
        (key_eq_key_iff.2 ⟨haTable.trans hbTable.symm, hid⟩)
  · obtain ⟨row, hrow, rfl⟩ := List.mem_map.1 hid
    exact ⟨machine, hmachine, row, (heligible row hrow).1, (heligible row hrow).2, rfl⟩

end Menu

/-- When a menu is returned, it was read and decided under one authority. Its commands are
different commands of the definition, its ids are different ids of records of the command's
table, a command is listed exactly when it has a record, and about every record the menu
agrees with the executor. -/
theorem available_agrees (spec : CheckedAppSpec) (facts : CheckedRecords)
    (hfacts : facts.ValidFor spec.definition) (readHost host : SessionVerifier) (caller : Caller)
    (out : List (RawCommand × List RecordId))
    (hout : availableCommandRecords readHost host caller spec.definition facts = .ok out) :
    ∃ context, readHost.resolve caller .read = .ok context ∧
      host.resolve caller .write = .ok context ∧
      (out.map (·.1.commandId)).Nodup ∧
      (∀ entry ∈ out, entry.1 ∈ spec.definition.commands ∧ entry.2.Nodup) ∧
      ∀ command ∈ spec.definition.commands, ∃ machine rule,
        spec.definition.machine command.stateMachineId = some machine ∧
        spec.definition.policy command.policyRuleId = some rule ∧
        ((∃ ids, (command, ids) ∈ out) ↔
          ∃ row ∈ facts.records, row.tableId = machine.tableId ∧ Offered out command row.id) ∧
        ∀ row ∈ facts.records, row.tableId = machine.tableId →
          MenuAgrees context spec.definition facts out command rule row := by
  have hspec := wellFormed spec
  obtain ⟨context, offers, hread, hwrite, -, -, hoffers, rfl⟩ := of_availableCommandRecords hout
  refine ⟨context, hread, hwrite, ?_, fun entry hentry => ?_, fun command hcommand => ?_⟩
  · have hcommands : ((spec.definition.commands.zip offers).map fun entry =>
        entry.1.commandId) = spec.definition.commands.map (·.commandId) := by
      have hfst := List.map_fst_zip hoffers.length_eq.le
      simpa [Function.comp_def] using congrArg (List.map (·.commandId)) hfst
    refine List.Nodup.sublist (List.filter_sublist.map _) ?_
    rw [hcommands]
    exact hspec.declarations.commandIds
  · obtain ⟨hcommand, hnodup, -⟩ := of_mem_menu hspec hfacts hoffers hentry
    exact ⟨hcommand, hnodup⟩
  · obtain ⟨machine, rule, haccepted⟩ := hspec.declarations.commands command hcommand
    refine ⟨machine, rule, haccepted.hasMachine, haccepted.hasPolicy, ⟨?_, ?_⟩,
      fun row hrow htable => ?_⟩
    · rintro ⟨ids, hids⟩
      obtain ⟨-, -, hne, hall⟩ := of_mem_menu hspec hfacts hoffers hids
      obtain ⟨id, hid⟩ := List.exists_mem_of_ne_nil ids hne
      obtain ⟨machine', hmachine, row, hrow, htable, rfl⟩ := hall id hid
      obtain rfl := Option.some.inj (hmachine.symm.trans haccepted.hasMachine)
      exact ⟨row, hrow, htable, ids, hids, hid⟩
    · rintro ⟨row, -, -, ids, hids, -⟩
      exact ⟨ids, hids⟩
    · exact menuAgrees hspec hfacts hcommand haccepted hrow htable
        (offered_iff hspec hfacts hoffers hcommand haccepted hrow htable)

/-- The open ticket is offered to its owner. -/
theorem available_agrees_ticket : ∃ context command machine rule,
    Offered [(ticketDefinition.commands.head (by decide), [⟨"rec_a", by decide⟩])] command
      ⟨"rec_a", by decide⟩ ∧
    ticketDefinition.machine command.stateMachineId = some machine ∧
    ∀ row ∈ ticketFacts.records, row.tableId = machine.tableId →
      MenuAgrees context ticketDefinition ticketFacts
        [(ticketDefinition.commands.head (by decide), [⟨"rec_a", by decide⟩])] command rule row := by
  have hout : availableCommandRecords (ticketHost ticketActor) (ticketHost ticketActor) ticketCaller
      ticketDefinition ticketFacts =
      .ok [(ticketDefinition.commands.head (by decide), [⟨"rec_a", by decide⟩])] := by
    decide +kernel
  obtain ⟨context, -, -, -, -, hall⟩ := available_agrees ticketSpec ticketFacts
    ⟨ticketFacts.records, by decide +kernel⟩ _ _ _ _ hout
  obtain ⟨machine, rule, hmachine, -, -, hagrees⟩ :=
    hall _ (List.head_mem (l := ticketDefinition.commands) (by decide))
  exact ⟨context, _, machine, rule, ⟨_, List.mem_singleton_self _, List.mem_singleton_self _⟩,
    hmachine, hagrees⟩

end Evobase
