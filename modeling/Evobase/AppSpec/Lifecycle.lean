import Evobase.AppSpec.Submit
import Mathlib.Logic.Relation

/-!
# Runs of the two command decisions

A step of the core is a declared command or a submission whose writes are applied to the
facts. Declared commands move a record along a declared transition of its machine and
never out of a terminal state. A submission does the same only when the machine of the
order table knows the move it makes (`SubmitConforms`): the submission itself looks at no
machine.
-/

namespace Evobase

open Foundation

theorem mem_of_replaceRow {new : RawRecord} {rows rows' : List RawRecord}
    (h : replaceRow new rows = some rows') : new.key ∈ rows.map RawRecord.key := by
  induction rows generalizing rows' with
  | nil => cases h
  | cons row rest ih =>
      rw [replaceRow] at h
      split_ifs at h with hkey
      · rw [List.map_cons, ← key_eq_key_iff.2 hkey]
        exact List.mem_cons_self
      · obtain ⟨tail, htail, -⟩ := Option.map_eq_some_iff.1 h
        exact List.mem_cons_of_mem _ (ih htail)

/-- Applying writes keeps the keys; a record of the result is a write or was there before and
is not written. -/
theorem of_applyWrites {rows writes rows' : List RawRecord}
    (hkeys : (rows.map RawRecord.key).Nodup) (h : applyWrites rows writes = some rows') :
    rows'.map RawRecord.key = rows.map RawRecord.key ∧
      ∀ row ∈ rows', row ∈ writes ∨ row ∈ rows ∧ row.key ∉ writes.map RawRecord.key := by
  induction writes generalizing rows with
  | nil =>
      obtain rfl : rows = rows' := Option.some.inj h
      exact ⟨rfl, fun row hrow => .inr ⟨hrow, by simp⟩⟩
  | cons write rest ih =>
      rw [applyWrites, List.foldlM_cons] at h
      obtain ⟨next, hnext, htail⟩ := Option.bind_eq_some_iff.1 h
      rw [replaceRow_eq_some hkeys (mem_of_replaceRow hnext)] at hnext
      obtain rfl := Option.some.inj hnext
      obtain ⟨hsame, hrows⟩ := ih (by simpa using hkeys) htail
      refine ⟨by simpa using hsame, fun row hrow => ?_⟩
      rcases hrows row hrow with hrest | ⟨hmem, hfresh⟩
      · exact .inl (List.mem_cons_of_mem _ hrest)
      · rcases mem_setRow hmem with rfl | ⟨hmem, hne⟩
        · exact .inl List.mem_cons_self
        · refine .inr ⟨hmem, ?_⟩
          rw [List.map_cons, List.mem_cons]
          exact not_or.2 ⟨hne, hfresh⟩

theorem applyWrites_singleton {rows : List RawRecord} {new : RawRecord}
    (hkeys : (rows.map RawRecord.key).Nodup) {rows' : List RawRecord}
    (h : applyWrites rows [new] = some rows') : rows' = setRow new rows := by
  rw [applyWrites, List.foldlM_cons] at h
  obtain ⟨next, hnext, htail⟩ := Option.bind_eq_some_iff.1 h
  rw [replaceRow_eq_some hkeys (mem_of_replaceRow hnext)] at hnext
  exact (Option.some.inj (hnext.trans htail)).symm

/-- The facts after the writes have been applied and validated. -/
def Applied (spec : RawAppSpec) (facts : CheckedRecords) (writes : List RawRecord)
    (next : CheckedRecords) : Prop :=
  ∃ rows, applyWrites facts.records writes = some rows ∧
    validateRecords spec facts.scope rows = .ok next

/-- One decision of the core with its writes applied. A submission is limited to the rules,
requests and facts that `allowed` accepts. -/
inductive CoreStep (spec : RawAppSpec)
    (allowed : RawSubmitOrderRule → RawSubmitOrder → CheckedRecords → Prop)
    (facts next : CheckedRecords) : Prop
  | command (host : SessionVerifier) (caller : Caller) (request : RawCommandRequest)
      (prepared : PreparedCommand) (dataRevision : U64) (batch : CheckedTransitionBatch)
      (hprepare : prepareCommand host caller spec facts request = .ok prepared)
      (hdecide : decideCommand prepared dataRevision = .ok batch)
      (happly : Applied spec facts batch.writes next)
  | submit (host : SessionVerifier) (caller : Caller) (dataRevision : U64)
      (policy : OwnerRolePolicy) (command : SubmitOrderRule) (receipts : ReceiptBook)
      (request : RawSubmitOrder) (batch : CheckedCommandBatch)
      (hrule : ∃ base, SubmitOrderRule.check command.definition base command.rule = .ok command)
      (hallowed : allowed command.rule request facts)
      (hdecide : decideSubmitOrder host caller spec facts dataRevision policy command receipts
        request = .ok (.apply batch))
      (happly : Applied spec facts batch.writes next)

/-- The record moves along a declared transition of the machine. -/
def Declared (spec : RawAppSpec) (machine : RawStateMachine) (old new : Value) : Prop :=
  ∃ command ∈ spec.commands, command.stateMachineId = machine.machineId ∧
    old = .text command.fromState ∧ new = .text command.toState

/-- Every record that changes its state moves along a declared transition, and no record
leaves a terminal state. -/
def MachineLaw (spec : RawAppSpec) (facts next : CheckedRecords) : Prop :=
  ∀ machine ∈ spec.stateMachines, ∀ old ∈ facts.records, ∀ new ∈ next.records,
    old.tableId = machine.tableId → new.key = old.key →
      (new.value machine.stateField ≠ old.value machine.stateField →
        Declared spec machine (old.value machine.stateField) (new.value machine.stateField)) ∧
      ∀ state ∈ machine.terminalStates.keys, old.value machine.stateField = .text state →
        new.value machine.stateField = old.value machine.stateField

/-- The machine of the order table knows the moves of the submission: draft to submitted
when the rule writes its state field, and the note when the rule writes its state field as
the note. -/
def SubmitConforms (spec : RawAppSpec) (rule : RawSubmitOrderRule) (request : RawSubmitOrder)
    (facts : CheckedRecords) : Prop :=
  ∀ machine ∈ spec.stateMachines, machine.tableId = rule.orderTable →
    (machine.stateField = rule.stateField →
      Declared spec machine (.text "draft") (.text "submitted")) ∧
    (machine.stateField = rule.notesField → ∀ order,
      facts.find rule.orderTable request.orderId = some order → ∀ note,
        request.changes.get? rule.notesField = some (.text note) →
        Value.text (trim note) = order.value rule.notesField ∨
          Declared spec machine (order.value rule.notesField) (.text (trim note)))

theorem Declared.live {spec : RawAppSpec} (hspec : WellFormed spec) {machine : RawStateMachine}
    (hmachine : machine ∈ spec.stateMachines) {old new : Value}
    (h : Declared spec machine old new) {state : String}
    (hstate : state ∈ machine.terminalStates.keys) : old ≠ .text state := by
  obtain ⟨command, hcommand, hid, rfl, -⟩ := h
  obtain ⟨other, policy, haccepted⟩ := hspec.declarations.commands command hcommand
  obtain ⟨hother, hotherId⟩ := RawAppSpec.machine_some haccepted.hasMachine
  obtain rfl : machine = other :=
    List.inj_on_of_nodup_map hspec.declarations.machineIds hmachine hother
      (hid.symm.trans hotherId.symm)
  intro heq
  exact haccepted.from_live (Value.text.inj heq ▸ hstate)

theorem machineLaw_of_declared {spec : RawAppSpec} (hspec : WellFormed spec)
    {facts next : CheckedRecords}
    (h : ∀ machine ∈ spec.stateMachines, ∀ old ∈ facts.records, ∀ new ∈ next.records,
      old.tableId = machine.tableId → new.key = old.key →
        new.value machine.stateField = old.value machine.stateField ∨
          Declared spec machine (old.value machine.stateField) (new.value machine.stateField)) :
    MachineLaw spec facts next := by
  intro machine hmachine old hold new hnew htable hkey
  rcases h machine hmachine old hold new hnew htable hkey with hsame | hdeclared
  · exact ⟨fun hne => absurd hsame hne, fun _ _ _ => hsame⟩
  · exact ⟨fun _ => hdeclared,
      fun state hstate heq => absurd heq (hdeclared.live hspec hmachine hstate)⟩

section Step

variable {spec : RawAppSpec} {facts next : CheckedRecords}

/-- A record of the facts after a step: a write in normal form, or a record that was there
before. -/
theorem mem_of_applied (hspec : WellFormed spec) (hfacts : facts.ValidFor spec)
    {writes : List RawRecord} (h : Applied spec facts writes next) {new : RawRecord}
    (hnew : new ∈ next.records) :
    (∃ write ∈ writes, new.key = write.key ∧ ∀ id, new.value id = write.value id) ∨
      new ∈ facts.records := by
  obtain ⟨hvalid, hnormalized⟩ := (validFor_iff hspec).1 hfacts
  obtain ⟨rows, hrows, hvalidate⟩ := h
  obtain ⟨hvalidRows, rfl⟩ := (validateRecords_eq_ok_iff hspec).1 hvalidate
  obtain ⟨row, hrow, rfl⟩ := mem_normalized_iff.1 hnew
  rcases (of_applyWrites hvalid.keys hrows).2 row hrow with hwrite | ⟨hold, -⟩
  · exact .inl ⟨row, hwrite, rfl, value_normalize hspec (hvalidRows.each row hrow).declared⟩
  · rw [((normalized_eq_self_iff hvalid.keys).1 hnormalized).2 row hold]
    exact .inr hold

theorem applied_validFor (hspec : WellFormed spec) {writes : List RawRecord}
    (h : Applied spec facts writes next) : next.ValidFor spec := by
  obtain ⟨rows, -, hvalidate⟩ := h
  obtain ⟨-, rfl⟩ := (validateRecords_eq_ok_iff hspec).1 hvalidate
  exact ⟨rows, hvalidate⟩

theorem eq_of_key_eq (hspec : WellFormed spec) (hfacts : facts.ValidFor spec) {a b : RawRecord}
    (ha : a ∈ facts.records) (hb : b ∈ facts.records) (h : a.key = b.key) : a = b :=
  List.inj_on_of_nodup_map ((validFor_iff hspec).1 hfacts).1.keys ha hb h

theorem machineLaw_of_applied (hspec : WellFormed spec) (hfacts : facts.ValidFor spec)
    {writes : List RawRecord} (h : Applied spec facts writes next)
    (hwrites : ∀ write ∈ writes, ∃ old ∈ facts.records, write.key = old.key ∧
      ∀ machine ∈ spec.stateMachines, old.tableId = machine.tableId →
        write.value machine.stateField = old.value machine.stateField ∨
          Declared spec machine (old.value machine.stateField) (write.value machine.stateField)) :
    MachineLaw spec facts next := by
  refine machineLaw_of_declared hspec fun machine hmachine old hold new hnew htable hkey => ?_
  rcases mem_of_applied hspec hfacts h hnew with ⟨write, hwrite, hwriteKey, hvalue⟩ | hsame
  · obtain ⟨row, hrow, hrowKey, hlaw⟩ := hwrites write hwrite
    obtain rfl : row = old :=
      eq_of_key_eq hspec hfacts hrow hold (hrowKey.symm.trans (hwriteKey.symm.trans hkey))
    rw [hvalue]
    exact hlaw machine hmachine htable
  · rw [eq_of_key_eq hspec hfacts hsame hold hkey]
    exact .inl rfl

theorem machineLaw_of_command (hspec : WellFormed spec) (hfacts : facts.ValidFor spec)
    {request : RawCommandRequest} {prepared : PreparedCommand} {batch : CheckedTransitionBatch}
    {old new : RawRecord} {host : SessionVerifier} {caller : Caller}
    (hprepared : PreparedFor host caller spec facts request prepared)
    (h : TransitionCorrect spec facts request prepared batch old new)
    (happly : Applied spec facts batch.writes next) : MachineLaw spec facts next := by
  obtain ⟨hmem, htable, -⟩ := CheckedRecords.find_some h.found
  rw [h.writes] at happly
  refine machineLaw_of_applied hspec hfacts happly fun write hwrite => ⟨old, hmem, ?_, ?_⟩
  · rw [List.mem_singleton.1 hwrite]
    exact key_eq_key_iff.2 h.identity.2
  · intro machine hmachine hmachineTable
    obtain rfl : machine = prepared.machine :=
      hprepared.machine_unique hspec hmachine (hmachineTable.symm.trans htable)
    right
    refine ⟨prepared.command, (RawAppSpec.command_some hprepared.hasCommand).1,
      (RawAppSpec.machine_some hprepared.hasMachine).2.symm, ?_, ?_⟩
    · rw [RawRecord.value, h.source, Option.getD_some]
    · rw [List.mem_singleton.1 hwrite, RawRecord.value, h.target, Option.getD_some]

theorem hasType_stateField (hspec : WellFormed spec) {machine : RawStateMachine}
    (hmachine : machine ∈ spec.stateMachines) :
    spec.hasType machine.tableId machine.stateField .text := by
  have hrequired := (hspec.declarations.machines machine hmachine).stateField
  unfold RawAppSpec.isRequiredText at hrequired
  split at hrequired
  · rename_i field hfield
    exact hasType_of_field hfield (by simpa using (Bool.and_eq_true_iff.1 hrequired).1)
  · cases hrequired

/-- A submission that conforms to the machine of its table keeps the law. -/
theorem machineLaw_of_submission (hspec : WellFormed spec) (hfacts : facts.ValidFor spec)
    {command : SubmitOrderRule} {request : RawSubmitOrder} {batch : CheckedCommandBatch}
    {scope : Scope} {order : RawRecord} {intent : NormalizedIntent} {lineWrites : List RawRecord}
    {base : OwnerRolePolicy} (haccepted : SubmitOrderRule.Accepted spec base command.rule)
    (h : Submission spec facts command request batch scope order intent lineWrites)
    (hconforms : SubmitConforms spec command.rule request facts)
    (happly : Applied spec facts batch.writes next) : MachineLaw spec facts next := by
  obtain ⟨horder, htable, -⟩ := CheckedRecords.find_some h.found
  rw [h.writes] at happly
  refine machineLaw_of_applied hspec hfacts happly fun write hwrite => ?_
  rcases List.mem_cons.1 hwrite with rfl | hline
  · refine ⟨order, horder, rfl, fun machine hmachine hmachineTable => ?_⟩
    obtain ⟨hstate, hnotes⟩ := hconforms machine hmachine (hmachineTable.symm.trans htable)
    by_cases hfield : machine.stateField = command.rule.stateField
    · right
      rw [RawRecord.value, RawRecord.value, hfield, get?_updatedOrder, if_pos rfl, h.draft]
      exact hstate hfield
    · rw [RawRecord.value, get?_updatedOrder, if_neg hfield]
      cases hchange : intent.changes.get? machine.stateField with
      | none => exact .inl rfl
      | some value =>
          obtain ⟨hnotesField, note, hnote, rfl⟩ :=
            (of_normalizedIntent h.intended).1 _ _ hchange
          rw [hnotesField] at hnote ⊢
          exact hnotes hnotesField order h.found note hnote
  · obtain ⟨line, hlineMem, hlineTable, rfl⟩ := h.mem_lineWrites hline
    obtain ⟨hkey, hframe⟩ := updatedLine_frame h.intended line
    refine ⟨line, hlineMem, hkey, fun machine hmachine hmachineTable => .inl ?_⟩
    have hne : machine.stateField ≠ command.rule.quantityField := by
      intro heq
      have htext := hasType_stateField hspec hmachine
      have hinteger := haccepted.quantity
      rw [← hlineTable, hmachineTable, ← heq, RawAppSpec.hasType, htext] at hinteger
      cases hinteger
    rw [RawRecord.value, hframe _ hne, RawRecord.value]

theorem CoreStep.law (hspec : WellFormed spec) (hfacts : facts.ValidFor spec)
    (h : CoreStep spec (SubmitConforms spec) facts next) :
    next.ValidFor spec ∧ MachineLaw spec facts next := by
  cases h with
  | command host caller request prepared dataRevision batch hprepare hdecide happly =>
      have hrevision : 0 < dataRevision.val := by
        have hlower := dataRevision.lower
        simp only [decideCommand, bind_eq_ok, rejectIf_eq_ok] at hdecide
        have hne := hdecide.choose_spec.1
        omega
      have hprepared := prepareCommand_eq_ok_iff.1 hprepare
      obtain ⟨old, new, hcorrect⟩ :=
        (decideCommand_outcome hspec hprepared hfacts hrevision).1 batch hdecide
      exact ⟨applied_validFor hspec happly,
        machineLaw_of_command hspec hfacts hprepared hcorrect happly⟩
  | submit host caller dataRevision policy command receipts request batch hrule hallowed hdecide
      happly =>
      obtain ⟨order, intent, lineWrites, hsubmission⟩ := of_decideSubmitOrder hdecide
      obtain ⟨base, hcheck⟩ := hrule
      obtain ⟨haccepted, -⟩ := SubmitOrderRule.check_eq_ok_iff.1 hcheck
      rw [hsubmission.definition] at haccepted
      exact ⟨applied_validFor hspec happly, machineLaw_of_submission hspec hfacts haccepted
        hsubmission hallowed happly⟩

theorem map_key_of_applied (hspec : WellFormed spec) (hfacts : facts.ValidFor spec)
    {writes : List RawRecord} (h : Applied spec facts writes next) :
    ∀ k, k ∈ next.records.map RawRecord.key ↔ k ∈ facts.records.map RawRecord.key := by
  obtain ⟨rows, hrows, hvalidate⟩ := h
  obtain ⟨-, rfl⟩ := (validateRecords_eq_ok_iff hspec).1 hvalidate
  intro k
  rw [map_key_normalized, mem_keys_sortBy,
    (of_applyWrites ((validFor_iff hspec).1 hfacts).1.keys hrows).1]

theorem CoreStep.applied {allowed : RawSubmitOrderRule → RawSubmitOrder → CheckedRecords → Prop}
    (h : CoreStep spec allowed facts next) : ∃ writes, Applied spec facts writes next := by
  cases h with
  | command host caller request prepared dataRevision batch hprepare hdecide happly =>
      exact ⟨_, happly⟩
  | submit host caller dataRevision policy command receipts request batch hrule hallowed hdecide
      happly =>
      exact ⟨_, happly⟩

end Step

theorem terminal_of_run {spec : RawAppSpec} (hspec : WellFormed spec)
    {facts later : CheckedRecords} (hfacts : facts.ValidFor spec)
    (hrun : Relation.ReflTransGen (CoreStep spec (SubmitConforms spec)) facts later) :
    later.ValidFor spec ∧ ∀ machine ∈ spec.stateMachines, ∀ old ∈ facts.records,
      old.tableId = machine.tableId → ∀ state ∈ machine.terminalStates.keys,
        old.value machine.stateField = .text state →
          ∃ new ∈ later.records, new.key = old.key ∧
            new.value machine.stateField = .text state := by
  induction hrun with
  | refl => exact ⟨hfacts, fun machine _ old hold _ state _ hvalue => ⟨old, hold, rfl, hvalue⟩⟩
  | @tail mid next _ hstep ih =>
      obtain ⟨hmid, hterminal⟩ := ih
      obtain ⟨hnext, hlaw⟩ := hstep.law hspec hmid
      refine ⟨hnext, fun machine hmachine old hold htable state hstate hvalue => ?_⟩
      obtain ⟨row, hrow, hkey, hrowValue⟩ :=
        hterminal machine hmachine old hold htable state hstate hvalue
      obtain ⟨writes, happly⟩ := hstep.applied
      obtain ⟨new, hnew, hnewKey⟩ := List.mem_map.1
        ((map_key_of_applied hspec hmid happly row.key).2 (List.mem_map_of_mem hrow))
      have hrowTable : row.tableId = machine.tableId := (key_eq_key_iff.1 hkey).1.trans htable
      have hkeep := (hlaw machine hmachine row hrow new hnew hrowTable hnewKey).2 state hstate
        hrowValue
      exact ⟨new, hnew, hnewKey.trans hkey, hkeep.trans hrowValue⟩

/-- Terminal states are final over every run whose submissions conform to the machine of
their table: every step of the run obeys the law, and a record that has reached a terminal
state keeps it. -/
theorem terminal_states_final (spec : CheckedAppSpec) (facts : CheckedRecords)
    (hfacts : facts.ValidFor spec.definition) (later : CheckedRecords)
    (hrun : Relation.ReflTransGen (CoreStep spec.definition (SubmitConforms spec.definition))
      facts later) :
    (∀ next, CoreStep spec.definition (SubmitConforms spec.definition) later next →
      MachineLaw spec.definition later next) ∧
    ∀ machine ∈ spec.definition.stateMachines, ∀ old ∈ facts.records,
      old.tableId = machine.tableId → ∀ state ∈ machine.terminalStates.keys,
        old.value machine.stateField = .text state →
          ∃ new ∈ later.records, new.key = old.key ∧
            new.value machine.stateField = .text state := by
  have hspec := wellFormed spec
  obtain ⟨hlater, hterminal⟩ := terminal_of_run hspec hfacts hrun
  exact ⟨fun next hstep => (hstep.law hspec hlater).2, hterminal⟩

theorem terminal_states_final_ticket :
    ∃ later, CoreStep ticketDefinition (SubmitConforms ticketDefinition) ticketFacts later ∧
      (∀ next, CoreStep ticketDefinition (SubmitConforms ticketDefinition) later next →
        MachineLaw ticketDefinition later next) := by
  obtain ⟨later, hrun⟩ := exists_eq_ok (show (prepareCommand (ticketHost ticketActor) ticketCaller
    ticketDefinition ticketFacts closeTicket >>= fun prepared =>
      decideCommand prepared ⟨1, by decide, by decide⟩ >>= fun batch =>
      okOr (.fail .revisionRequired) (applyWrites ticketFacts.records batch.writes) >>= fun rows =>
      Exec.lift .kernel (validateRecords ticketDefinition ticketScope rows)).toBool = true by
    decide +kernel)
  simp only [bind_eq_ok, okOr_eq_ok, Exec.lift_eq_ok] at hrun
  obtain ⟨prepared, hprepare, batch, hdecide, rows, hrows, hvalidate⟩ := hrun
  have hstep : CoreStep ticketDefinition (SubmitConforms ticketDefinition) ticketFacts later :=
    .command _ _ _ _ _ _ hprepare hdecide ⟨rows, hrows, hvalidate⟩
  exact ⟨later, hstep, (terminal_states_final ticketSpec ticketFacts
    ⟨ticketFacts.records, by decide +kernel⟩ later (.single hstep)).1⟩

def shopFacts : CheckedRecords :=
  ⟨shopScope, [shopLine recL recO recP
      (.money shopPrice),
    draftOrder recO ticketActor.text,
    shopProduct recP shopPrice]⟩

def shopPolicy : OwnerRolePolicy := ⟨shopDefinition, shopDefinition.policies.head (by decide)⟩

def shopSubmitRule : SubmitOrderRule :=
  ⟨shopDefinition, shopDefinition.submitRules.head (by decide)⟩

def shopCaller : Caller := { ticketCaller with scope := shopScope }

def submittedOrder (id : RecordId) (owner : String) : RawRecord :=
  { draftOrder id owner with
    values := (draftOrder id owner).values.insert fldOs (.text "submitted") }

/-- The facts after the submission. -/
def submittedShopFacts : CheckedRecords :=
  ⟨shopScope, [shopLine recL recO recP
      (.money shopPrice),
    submittedOrder recO ticketActor.text,
    shopProduct recP shopPrice]⟩

def submitShopOrder : RawSubmitOrder := ⟨recO, "k", .empty, []⟩

/-- A submission moves an order out of the terminal state draft, along no declared
transition. -/
theorem terminal_states_not_final :
    ¬ ∀ (spec : CheckedAppSpec) (facts later next : CheckedRecords),
      facts.ValidFor spec.definition →
      Relation.ReflTransGen (CoreStep spec.definition fun _ _ _ => True) facts later →
      CoreStep spec.definition (fun _ _ _ => True) later next →
        MachineLaw spec.definition later next := by
  intro hall
  have hrun : (decideSubmitOrder (ticketHost ticketActor) shopCaller shopDefinition shopFacts
      ⟨1, by decide, by decide⟩ shopPolicy shopSubmitRule ⟨[]⟩ submitShopOrder >>= fun decision =>
    match decision with
    | .apply batch =>
        okOr (.fail .invalidInput) (applyWrites shopFacts.records batch.writes) >>= fun rows =>
          Exec.lift (fun _ => .invalidInput) (validateRecords shopDefinition shopScope rows)
    | .replay _ => Exec.fail .invalidInput) = .ok submittedShopFacts := by decide +kernel
  obtain ⟨decision, hdecide, happly⟩ := bind_eq_ok.1 hrun
  cases decision with
  | replay receipt => cases happly
  | apply batch =>
      simp only [bind_eq_ok, okOr_eq_ok, Exec.lift_eq_ok] at happly
      obtain ⟨rows, hrows, hvalidate⟩ := happly
      have hstep : CoreStep shopDefinition (fun _ _ _ => True) shopFacts submittedShopFacts :=
        .submit _ _ _ _ _ _ _ _ ⟨shopPolicy, by decide +kernel⟩ trivial hdecide
          ⟨rows, hrows, hvalidate⟩
      have hlaw := hall shopSpec shopFacts shopFacts submittedShopFacts
        ⟨shopFacts.records, by decide +kernel⟩ .refl hstep
      have hkept := (hlaw _ (List.head_mem (l := shopDefinition.stateMachines) (by decide))
        (draftOrder ⟨"rec_o", by decide⟩ ticketActor.text) (by decide +kernel)
        (submittedOrder ⟨"rec_o", by decide⟩ ticketActor.text) (by decide +kernel) rfl rfl).2
        "draft" (by decide +kernel) (by decide +kernel)
      exact absurd hkept (by decide +kernel)

end Evobase
