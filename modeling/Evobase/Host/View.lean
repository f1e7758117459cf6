import Evobase.Host.Read

/-!
# What a caller can tell about hidden rows

Two sets of facts that show a caller the same rows are answered alike: by the projection and
what is made from it, and by the list of the host, to the last of its flags. A request that
names a record which its caller may not use is answered as if there were no such record.
-/

namespace Evobase

open Foundation

namespace HostState

variable {host : HostState} {snapshot : Snapshot} {facts' : CheckedRecords} {caller : Caller}
  {table : TableId} {limit : Nat} {moments : Moments}

/-- A list of the caller is read in the context. -/
def ReadsIn (host : HostState) (caller : Caller) (moments : Moments) (context : TrustedContext) :
    Prop :=
  ∃ access, (moments 0).current = .ok access ∧
    (host.verifier.pinned access (moments 2)).resolve caller .read = .ok context

theorem listOf_congr (hspec : WellFormed snapshot.spec)
    (hfacts : snapshot.facts.ValidFor snapshot.spec) (hfacts' : facts'.ValidFor snapshot.spec)
    (hscope : facts'.scope = snapshot.facts.scope)
    (hview : ∀ rule context, snapshot.spec.policies.find? (fun policy => policy.tableId = table) =
      some rule → host.ReadsIn caller moments context →
        SameView ⟨snapshot.spec, rule⟩ context snapshot.facts facts') :
    host.listOf { snapshot with facts := facts' } caller table limit moments =
      host.listOf snapshot caller table limit moments := by
  rw [listOf, listOf]
  refine bind_congr_ok fun rule hrule => bind_congr_ok fun policy hpolicy =>
    bind_congr_ok fun access haccess => bind_congr_ok fun original _ => ?_
  rw [okOr_eq_ok] at hrule
  rw [Exec.ofExcept_eq_ok] at hpolicy haccess
  obtain ⟨-, rfl⟩ := OwnerRolePolicy.check_eq_ok_iff.1 hpolicy
  have hsame : ∀ context, (host.verifier.pinned access (moments 2)).resolve caller .read =
      .ok context → SameView ⟨snapshot.spec, rule⟩ context snapshot.facts facts' :=
    fun context hresolve => hview rule context hrule ⟨access, haccess, hresolve⟩
  have hproject := project_congr hspec hfacts hfacts' hscope hsame .query
  rw [hproject]
  rfl

end HostState

section Noninterference

variable {spec : RawAppSpec} {facts facts' : CheckedRecords}

/-- A record of the id exists in the first facts, and its caller may not use the grant on it; the
second facts have no such record. -/
structure HiddenOrAbsent (policy : OwnerRolePolicy) (context : TrustedContext)
    (facts facts' : CheckedRecords) (table : TableId) (id : RecordId) (grant : Grant) : Prop where
  hidden : ∃ row, facts.find table id = some row ∧ ¬ policy.allows context row grant
  absent : facts'.find table id = none

theorem HiddenOrAbsent.both {policy : OwnerRolePolicy} {context : TrustedContext} {table : TableId}
    {id : RecordId} {grant : Grant}
    (h : HiddenOrAbsent policy context facts facts' table id grant) :
    Hidden policy context facts table id grant ∧ Hidden policy context facts' table id grant := by
  obtain ⟨⟨row, hrow, hdenied⟩, habsent⟩ := h
  refine ⟨fun other hother => ?_, hidden_of_find_none habsent⟩
  obtain rfl := Option.some.inj (hrow.symm.trans hother)
  exact hdenied

end Noninterference

/-- Hidden rows do not show. Two valid sets of facts of one scope in which a caller sees the same
rows with the same readable values have the same projections, lookups, counts and sums, and the
same list of the host for every request, at one revision. A command or a submission that names a
record which its caller may not use is answered with the error of a record that does not exist. -/
theorem row_policy_noninterference (spec : CheckedAppSpec) (facts facts' : CheckedRecords)
    (hfacts : facts.ValidFor spec.definition) (hfacts' : facts'.ValidFor spec.definition)
    (hscope : facts'.scope = facts.scope) :
    (∀ rule policy (host : SessionVerifier) (caller : Caller),
      OwnerRolePolicy.check spec.definition rule = .ok policy →
      (∀ context, host.resolve caller .read = .ok context →
        SameView policy context facts facts') →
      (∀ purpose, project host caller facts' policy purpose =
        project host caller facts policy purpose) ∧
      (∀ id, lookup host caller facts' policy id = lookup host caller facts policy id) ∧
      visibleCount host caller facts' policy = visibleCount host caller facts policy ∧
      ∀ field, visibleSum host caller facts' policy field =
        visibleSum host caller facts policy field) ∧
    (∀ (host : HostState) (backend : Backend) (tables tables' : Tables) (moments : Moments)
        (request : HttpRequest) (app table : String) (revision : U64) (specIdentity : String),
      host.snapshot backend tables = .ok ⟨spec.definition, facts, revision, specIdentity⟩ →
      host.snapshot backend tables' = .ok ⟨spec.definition, facts', revision, specIdentity⟩ →
      (∀ caller rule context,
        host.authorize request app .read false (moments 0).clock (moments 1) = .ok caller →
        rule.tableId.text = table → rule ∈ spec.definition.policies →
        host.ReadsIn caller (fun i => moments (i + 2)) context →
        SameView ⟨spec.definition, rule⟩ context facts facts') →
      host.list backend tables' moments request app table =
        host.list backend tables moments request app table) ∧
    (∀ (host : SessionVerifier) (caller : Caller) (request : RawCommandRequest),
      (∀ command machine rule context,
        spec.definition.command request.commandId = some command →
        spec.definition.machine command.stateMachineId = some machine →
        spec.definition.policy command.policyRuleId = some rule →
        host.resolve caller .write = .ok context →
        HiddenOrAbsent ⟨spec.definition, rule⟩ context facts facts' machine.tableId
          request.recordId .write) →
      ∃ halt, prepareCommand host caller spec.definition facts request = .error halt ∧
        prepareCommand host caller spec.definition facts' request = .error halt) ∧
    ∀ (host : SessionVerifier) (caller : Caller) (dataRevision : U64) (rule : RawOwnerRolePolicy)
        (policy : OwnerRolePolicy) (submit : RawSubmitOrderRule) (command : SubmitOrderRule)
        (receipts : ReceiptBook) (request : RawSubmitOrder),
      OwnerRolePolicy.check spec.definition rule = .ok policy →
      SubmitOrderRule.check spec.definition policy submit = .ok command →
      (∀ context, host.resolve caller .submit = .ok context →
        HiddenOrAbsent policy context facts facts' command.rule.orderTable request.orderId
          .submit) →
      ∃ halt,
        decideSubmitOrder host caller spec.definition facts dataRevision policy command receipts
          request = .error halt ∧
        decideSubmitOrder host caller spec.definition facts' dataRevision policy command receipts
          request = .error halt := by
  have hspec := wellFormed spec
  refine ⟨?_, ?_, ?_, ?_⟩
  · intro rule policy host caller hcheck hview
    obtain ⟨-, rfl⟩ := OwnerRolePolicy.check_eq_ok_iff.1 hcheck
    have hproject := project_congr hspec hfacts hfacts' hscope hview
    exact ⟨hproject, outputs_congr hproject⟩
  · intro host backend tables tables' moments request app table revision specIdentity hsnapshot
      hsnapshot' hview
    rw [HostState.list, HostState.list, hsnapshot, hsnapshot']
    refine bind_congr_ok fun caller hcaller => bind_congr_ok fun limit _ =>
      bind_congr_ok fun id hid => ?_
    rw [Exec.ofExcept_eq_ok] at hcaller
    rw [okOr_eq_ok, Identity.ofText?_eq_some] at hid
    rw [ok_bind, ok_bind]
    let snapshot : Snapshot := ⟨spec.definition, facts, revision, specIdentity⟩
    suffices hlists : host.listOf { snapshot with facts := facts' } caller id limit
        (fun i => moments (i + 2)) =
          host.listOf snapshot caller id limit (fun i => moments (i + 2)) from hlists
    refine HostState.listOf_congr hspec hfacts hfacts' hscope fun rule context hrule hreads => ?_
    have htable : rule.tableId = id := by simpa using List.find?_some hrule
    exact hview caller rule context hcaller (htable ▸ hid) (List.mem_of_find?_eq_some hrule) hreads
  · intro host caller request hhidden
    refine prepareCommand_hidden hspec hfacts hfacts' hscope
      fun command machine rule context hcommand hmachine hpolicy hresolve => ?_
    exact (hhidden command machine rule context hcommand hmachine hpolicy hresolve).both
  · intro host caller dataRevision rule policy submit command receipts request hcheck _ hhidden
    obtain ⟨-, rfl⟩ := OwnerRolePolicy.check_eq_ok_iff.1 hcheck
    exact decideSubmitOrder_hidden hspec hfacts hfacts' hscope rfl
      fun context hresolve => (hhidden context hresolve).both

def sharedTickets : CheckedRecords :=
  ⟨ticketScope, [openTicket recA ticketActor.text,
    openTicket recB "actor_b"]⟩

/-- The actor counts the tickets as if the ticket of somebody else were not there. -/
theorem row_policy_noninterference_ticket : ∃ rule ∈ ticketDefinition.policies,
    visibleCount (ticketHost ticketActor) ticketCaller sharedTickets ⟨ticketDefinition, rule⟩ =
      visibleCount (ticketHost ticketActor) ticketCaller ticketFacts ⟨ticketDefinition, rule⟩ := by
  have hfacts : ticketFacts.ValidFor ticketSpec.definition :=
    ⟨ticketFacts.records, by decide +kernel⟩
  have hshared : sharedTickets.ValidFor ticketSpec.definition :=
    ⟨sharedTickets.records, by decide +kernel⟩
  have hresolved : (ticketHost ticketActor).resolve ticketCaller .read = .ok ticketContext := by
    decide +kernel
  obtain ⟨policy, hcheck⟩ := exists_eq_ok (show (OwnerRolePolicy.check ticketDefinition
    (ticketDefinition.policies.head (by decide))).toBool = true by decide +kernel)
  obtain ⟨-, rfl⟩ := OwnerRolePolicy.check_eq_ok_iff.1 hcheck
  refine ⟨_, List.head_mem _, ((row_policy_noninterference ticketSpec ticketFacts sharedTickets
    hfacts hshared rfl).1 _ _ _ _ hcheck fun context hresolve => ?_).2.2.1⟩
  obtain rfl := Except.ok.inj (hresolved.symm.trans hresolve)
  have hsame : OwnerRolePolicy.visibleRows ⟨ticketDefinition, ticketDefinition.policies.head
      (by decide)⟩ ticketContext ticketFacts =
      OwnerRolePolicy.visibleRows ⟨ticketDefinition, ticketDefinition.policies.head
        (by decide)⟩ ticketContext sharedTickets := by
    decide +kernel
  exact ⟨viewedIn_iff.2 fun visible hmem => hsame ▸ hmem,
    viewedIn_iff.2 fun visible hmem => hsame ▸ hmem⟩

end Evobase
