import Evobase.AppSpec.Transition
import Evobase.AppSpec.Submit

/-!
# What a row policy shows

A projection keeps the rows that the caller may read and of them the readable fields;
lookups, counts and sums are made from the projection. Facts that show the caller the same
rows (`SameView`) give the same outputs, and a request that names a hidden record is
answered as if there were no such record.
-/

namespace Evobase

open Foundation

inductive ProjectionPurpose where
  | query
  | picker
  | lookup
  | export
deriving DecidableEq, Repr

structure VisibleRecord where
  id : RecordId
  values : OrdMap FieldId Value
deriving DecidableEq

structure CheckedProjection where
  rows : List VisibleRecord
  purpose : ProjectionPurpose
  membershipRevision : U64
  policyRevision : U64
deriving DecidableEq

def OwnerRolePolicy.view (policy : OwnerRolePolicy) (row : RawRecord) : VisibleRecord :=
  ⟨row.id, row.values.restrict fun field => field ∈ policy.rule.readFields.keys⟩

/-- The rows that the caller may read, as far as the fields are readable. -/
def OwnerRolePolicy.visibleRows (policy : OwnerRolePolicy) (context : TrustedContext)
    (facts : CheckedRecords) : List VisibleRecord :=
  (facts.records.filter fun row => policy.allows context row .read).map policy.view

section Outputs

variable (host : SessionVerifier) (caller : Caller) (facts : CheckedRecords)
  (policy : OwnerRolePolicy)

def project (purpose : ProjectionPurpose) : Exec PolicyError CheckedProjection := do
  let context ← Exec.ofExcept .authority (host.resolve caller .read)
  policy.checkScope caller.scope facts
  .ok {
    rows := policy.visibleRows context facts
    purpose
    membershipRevision := context.membershipRevision
    policyRevision := policy.rule.revision }

def lookup (id : RecordId) : Exec PolicyError (Option VisibleRecord) := do
  let projection ← project host caller facts policy .lookup
  .ok (projection.rows.find? fun row => row.id = id)

def visibleCount : Exec PolicyError Nat := do
  let projection ← project host caller facts policy .query
  .ok projection.rows.length

/-- The sum with the number of a visible row. -/
def addVisible (field : FieldId) (sum : I64) (row : VisibleRecord) : Exec PolicyError I64 :=
  match row.values.get? field with
  | some (.integer value) | some (.money value) => okOr (.fail .overflow) (sum.checkedAdd value)
  | some .blank | some .null | none => .ok sum
  | _ => .error (.fail .invalidInput)

def visibleSum (field : FieldId) : Exec PolicyError I64 := do
  let projection ← project host caller facts policy .query
  rejectIf (field ∉ policy.rule.readFields.keys) (.fail .denied)
  projection.rows.foldlM (addVisible field) I64.zero

end Outputs

/-- Every row that the caller may read in the first facts is one of the second facts, with
the same readable values. -/
def ViewedIn (policy : OwnerRolePolicy) (context : TrustedContext)
    (facts facts' : CheckedRecords) : Prop :=
  ∀ row ∈ facts.records, policy.allows context row .read →
    ∃ row' ∈ facts'.records, policy.allows context row' .read ∧ row'.id = row.id ∧
      ∀ field ∈ policy.rule.readFields.keys, row'.values.get? field = row.values.get? field

/-- The caller sees the same rows with the same readable values. -/
def SameView (policy : OwnerRolePolicy) (context : TrustedContext)
    (facts facts' : CheckedRecords) : Prop :=
  ViewedIn policy context facts facts' ∧ ViewedIn policy context facts' facts

section View

variable {policy : OwnerRolePolicy} {context : TrustedContext} {spec : RawAppSpec}
  {facts facts' : CheckedRecords}

theorem view_eq_view_iff {row row' : RawRecord} :
    policy.view row' = policy.view row ↔ row'.id = row.id ∧
      ∀ field ∈ policy.rule.readFields.keys, row'.values.get? field = row.values.get? field := by
  simp only [OwnerRolePolicy.view, VisibleRecord.mk.injEq]
  refine and_congr_right fun _ => ⟨fun h field hfield => ?_, fun h => OrdMap.ext_get? fun field => ?_⟩
  · have hget := congrArg (fun values : OrdMap FieldId Value => values.get? field) h
    simpa [OrdMap.get?_restrict, hfield] using hget
  · rw [OrdMap.get?_restrict, OrdMap.get?_restrict]
    split_ifs with hfield
    · exact h field hfield
    · rfl

theorem mem_visibleRows_iff {visible : VisibleRecord} :
    visible ∈ policy.visibleRows context facts ↔
      ∃ row ∈ facts.records, policy.allows context row .read ∧ policy.view row = visible := by
  simp [OwnerRolePolicy.visibleRows, and_assoc]

theorem viewedIn_iff :
    ViewedIn policy context facts facts' ↔
      ∀ visible ∈ policy.visibleRows context facts, visible ∈ policy.visibleRows context facts' := by
  constructor
  · intro h visible hvisible
    obtain ⟨row, hrow, hallows, rfl⟩ := mem_visibleRows_iff.1 hvisible
    obtain ⟨row', hrow', hallows', hsame⟩ := h row hrow hallows
    exact mem_visibleRows_iff.2 ⟨row', hrow', hallows', view_eq_view_iff.2 hsame⟩
  · intro h row hrow hallows
    obtain ⟨row', hrow', hallows', hview⟩ :=
      mem_visibleRows_iff.1 (h _ (mem_visibleRows_iff.2 ⟨row, hrow, hallows, rfl⟩))
    exact ⟨row', hrow', hallows', view_eq_view_iff.1 hview⟩

theorem pairwise_visibleRows (hspec : WellFormed spec) (hfacts : facts.ValidFor spec) :
    (policy.visibleRows context facts).Pairwise fun a b => a.id < b.id := by
  obtain ⟨hvalid, hnormal⟩ := (validFor_iff hspec).1 hfacts
  have hsorted := ((normalized_eq_self_iff hvalid.keys).1 hnormal).1
  rw [List.pairwise_map] at hsorted
  rw [OwnerRolePolicy.visibleRows, List.pairwise_map]
  refine (hsorted.filter _).imp_of_mem fun {a b} ha hb hlt => ?_
  have hta := (of_decide_eq_true (List.mem_filter.1 ha).2).2.1
  have htb := (of_decide_eq_true (List.mem_filter.1 hb).2).2.1
  rw [RawRecord.key, RawRecord.key, Prod.Lex.toLex_lt_toLex] at hlt
  rcases hlt with hlt | ⟨-, hlt⟩
  · exact absurd (hta.trans htb.symm) hlt.ne
  · exact hlt

theorem visibleRows_eq (hspec : WellFormed spec) (hfacts : facts.ValidFor spec)
    (hfacts' : facts'.ValidFor spec) (h : SameView policy context facts facts') :
    policy.visibleRows context facts = policy.visibleRows context facts' := by
  exact eq_of_pairwise_lt _ (pairwise_visibleRows hspec hfacts)
    (pairwise_visibleRows hspec hfacts') fun visible => ⟨viewedIn_iff.1 h.1 visible, viewedIn_iff.1 h.2 visible⟩

end View

section Interference

variable {host : SessionVerifier} {caller : Caller} {policy : OwnerRolePolicy}
  {facts facts' : CheckedRecords}

theorem checkScope_congr (hspec : WellFormed policy.definition)
    (hfacts : facts.ValidFor policy.definition) (hfacts' : facts'.ValidFor policy.definition)
    (hscope : facts'.scope = facts.scope) (scope : Scope) :
    policy.checkScope scope facts' = policy.checkScope scope facts := by
  have hvalid : ∀ {f : CheckedRecords}, f.ValidFor policy.definition →
      validateRecords policy.definition f.scope f.records = .ok f := by
    rintro f ⟨records, h⟩
    exact validateRecords_records hspec h
  rw [OwnerRolePolicy.checkScope, OwnerRolePolicy.checkScope, hscope]
  refine bind_congr_ok fun _ hmatch => ?_
  rw [rejectIf_eq_ok, not_or, not_not, not_not] at hmatch
  have hfirst := hvalid hfacts
  have hsecond := hvalid hfacts'
  rw [hscope, hmatch.2] at hsecond
  rw [hmatch.2] at hfirst
  rw [hfirst, hsecond]
  rfl

theorem project_congr (hspec : WellFormed policy.definition)
    (hfacts : facts.ValidFor policy.definition) (hfacts' : facts'.ValidFor policy.definition)
    (hscope : facts'.scope = facts.scope)
    (hview : ∀ context, host.resolve caller .read = .ok context →
      SameView policy context facts facts') (purpose : ProjectionPurpose) :
    project host caller facts' policy purpose = project host caller facts policy purpose := by
  rw [project, project]
  refine bind_congr_ok fun context hresolve => ?_
  rw [checkScope_congr hspec hfacts hfacts' hscope,
    visibleRows_eq hspec hfacts hfacts' (hview context (by simpa using hresolve))]

theorem outputs_congr (h : ∀ purpose, project host caller facts' policy purpose =
      project host caller facts policy purpose) :
    (∀ id, lookup host caller facts' policy id = lookup host caller facts policy id) ∧
      visibleCount host caller facts' policy = visibleCount host caller facts policy ∧
      ∀ field, visibleSum host caller facts' policy field =
        visibleSum host caller facts policy field := by
  refine ⟨fun id => ?_, ?_, fun field => ?_⟩
  · rw [lookup, lookup, h]
  · rw [visibleCount, visibleCount, h]
  · rw [visibleSum, visibleSum, h]

end Interference

/-- There is no record of the id that the caller may use the grant on. -/
def Hidden (policy : OwnerRolePolicy) (context : TrustedContext) (facts : CheckedRecords)
    (table : TableId) (id : RecordId) (grant : Grant) : Prop :=
  ∀ row, facts.find table id = some row → ¬ policy.allows context row grant

section Hidden

variable {host : SessionVerifier} {caller : Caller} {spec : RawAppSpec}
  {facts facts' : CheckedRecords} {policy : OwnerRolePolicy} {context : TrustedContext}

theorem hidden_of_find_none {table : TableId} {id : RecordId} {grant : Grant}
    (h : facts.find table id = none) : Hidden policy context facts table id grant := by
  intro row hrow
  rw [h] at hrow
  cases hrow

theorem denied_of_hidden {ε α : Type} {error : ε} {table : TableId} {id : RecordId} {grant : Grant}
    (h : Hidden policy context facts table id grant) (next : RawRecord → Except ε α) :
    (okOr error (facts.find table id) >>= fun row =>
      rejectIf (¬ policy.allows context row grant) error >>= fun _ => next row) = .error error := by
  cases hrow : facts.find table id with
  | none => rfl
  | some row => simp [okOr, rejectIf, h row hrow]

/-- A request that names a hidden record is answered as if there were no record. -/
theorem prepareCommand_hidden (hspec : WellFormed spec) (hfacts : facts.ValidFor spec)
    (hfacts' : facts'.ValidFor spec) (hscope : facts'.scope = facts.scope)
    {request : RawCommandRequest}
    (hhidden : ∀ command machine rule context, spec.command request.commandId = some command →
      spec.machine command.stateMachineId = some machine →
      spec.policy command.policyRuleId = some rule → host.resolve caller .write = .ok context →
      Hidden ⟨spec, rule⟩ context facts machine.tableId request.recordId .write ∧
        Hidden ⟨spec, rule⟩ context facts' machine.tableId request.recordId .write) :
    ∃ halt, prepareCommand host caller spec facts request = .error halt ∧
      prepareCommand host caller spec facts' request = .error halt := by
  suffices h : ∃ halt,
      authorizeCommand host caller spec facts request.commandId request.recordId = .error halt ∧
      authorizeCommand host caller spec facts' request.commandId request.recordId = .error halt by
    obtain ⟨halt, hfirst, hsecond⟩ := h
    refine ⟨halt, ?_, ?_⟩ <;> rw [prepareCommand_eq]
    · rw [hfirst, error_bind]
    · rw [hsecond, error_bind]
  rw [authorizeCommand, authorizeCommand, hscope]
  refine exists_error_bind fun context hresolve => exists_error_bind fun _ _ =>
    exists_error_bind fun command hcommand => exists_error_bind fun machine hmachine =>
    exists_error_bind fun rule hpolicy => exists_error_bind fun policy hcheck => ?_
  rw [Exec.ofExcept_eq_ok] at hresolve hcheck
  rw [okOr_eq_ok] at hcommand
  rw [Exec.expect_eq_ok] at hmachine hpolicy
  obtain ⟨-, rfl⟩ := OwnerRolePolicy.check_eq_ok_iff.1 hcheck
  obtain ⟨hfirst, hsecond⟩ := hhidden command machine rule context hcommand hmachine hpolicy hresolve
  rw [checkScope_congr hspec hfacts hfacts' hscope]
  refine exists_error_bind fun _ _ => ⟨_, denied_of_hidden hfirst _, denied_of_hidden hsecond _⟩

theorem decideSubmitOrder_hidden (hspec : WellFormed spec) (hfacts : facts.ValidFor spec)
    (hfacts' : facts'.ValidFor spec) (hscope : facts'.scope = facts.scope)
    (hpolicy : policy.definition = spec) {dataRevision : U64} {command : SubmitOrderRule}
    {receipts : ReceiptBook} {request : RawSubmitOrder}
    (hhidden : ∀ context, host.resolve caller .submit = .ok context →
      Hidden policy context facts command.rule.orderTable request.orderId .submit ∧
        Hidden policy context facts' command.rule.orderTable request.orderId .submit) :
    ∃ halt,
      decideSubmitOrder host caller spec facts dataRevision policy command receipts request =
        .error halt ∧
      decideSubmitOrder host caller spec facts' dataRevision policy command receipts request =
        .error halt := by
  subst hpolicy
  rw [decideSubmitOrder, decideSubmitOrder, checkScope_congr hspec hfacts hfacts' hscope]
  refine exists_error_bind fun context hresolve => exists_error_bind fun _ _ =>
    exists_error_bind fun _ _ => ?_
  rw [Exec.ofExcept_eq_ok] at hresolve
  obtain ⟨hfirst, hsecond⟩ := hhidden context hresolve
  exact ⟨_, denied_of_hidden hfirst _, denied_of_hidden hsecond _⟩

end Hidden

end Evobase
