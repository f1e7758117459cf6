import Evobase.AppSpec.Model

/-!
# Authority of the host

The core asks the host's verifier for a session, a membership and a binding each time
it acts, and keeps what they say of the caller as a `TrustedContext`. The verifier is a
parameter: its answers may differ from one call to the next, so every operation takes
the verifier it is answered by.
-/

namespace Evobase

open Foundation

/-- What a member may do; design, publish and manage imply no access to the data. -/
inductive Grant where
  | design
  | publish
  | manage
  | read
  | write
  | submit
deriving DecidableEq, Repr

inductive AuthorityError where
  | missingSession
  | unverified
  | expired
  | revoked
  | invalidIdentity
  | wrongScope
  | missingGrant
  | originDenied
  | bindingUnavailable
deriving DecidableEq, Repr

structure SessionFacts where
  actor : ActorId
  expiresAt : U64
  revoked : Bool

structure MembershipFacts where
  actor : ActorId
  scope : Scope
  active : Bool
  revision : U64
  grants : List Grant
  roles : OrdSet RoleId

structure BindingFacts where
  scope : Scope
  bindingId : String
  allowedMutationOrigins : List String

/-- The answers of the host to one call: its clock, given the time of the request, and
one snapshot of session, membership and binding for a credential and a scope. -/
structure SessionVerifier where
  currentTime : U64 → U64
  accessSnapshot : String → Scope →
    Except AuthorityError (SessionFacts × MembershipFacts × BindingFacts)

inductive RequestChannel where
  | nativeBearer
  | browserMutation (origin : Option String)
deriving DecidableEq, Repr

/-- The caller as the host knows it at one moment. -/
structure TrustedContext where
  actor : ActorId
  scope : Scope
  roles : OrdSet RoleId
  membershipRevision : U64
  bindingId : String
deriving DecidableEq

/-- The channel may be used from its origin. -/
def RequestChannel.allowed (channel : RequestChannel) (binding : BindingFacts) : Bool :=
  match channel with
  | .nativeBearer => true
  | .browserMutation none => false
  | .browserMutation (some origin) => origin ∈ binding.allowedMutationOrigins

/-- Who presents a request, and how: the part of a call that the host authenticates. -/
structure Caller where
  credential : String
  scope : Scope
  channel : RequestChannel
  now : U64

/-- The context of a caller who has a grant. -/
def SessionVerifier.resolve (host : SessionVerifier) (caller : Caller) (grant : Grant) :
    Except AuthorityError TrustedContext := do
  rejectIf (caller.credential = "") .missingSession
  let now := host.currentTime caller.now
  let (session, membership, binding) ← host.accessSnapshot caller.credential caller.scope
  rejectIf (session.revoked = true) .revoked
  rejectIf (session.expiresAt.val ≤ now.val) .expired
  rejectIf (membership.actor ≠ session.actor ∨ membership.scope ≠ caller.scope) .wrongScope
  rejectIf (membership.active = false ∨ membership.revision.val = 0) .revoked
  rejectIf (grant ∉ membership.grants) .missingGrant
  rejectIf (binding.scope ≠ caller.scope) .wrongScope
  rejectIf (binding.bindingId = "" ∨ 96 < binding.bindingId.utf8ByteSize) .bindingUnavailable
  rejectIf (caller.channel.allowed binding = false) .originDenied
  .ok {
    actor := session.actor
    scope := caller.scope
    roles := membership.roles
    membershipRevision := membership.revision
    bindingId := binding.bindingId }

/-- The answers of the host grant the caller what was asked for at the given time. -/
structure Grants (caller : Caller) (grant : Grant) (now : U64) (session : SessionFacts)
    (membership : MembershipFacts) (binding : BindingFacts) : Prop where
  presented : caller.credential ≠ ""
  unrevoked : session.revoked = false
  unexpired : now.val < session.expiresAt.val
  sameActor : membership.actor = session.actor
  memberScope : membership.scope = caller.scope
  active : membership.active = true
  revision : membership.revision.val ≠ 0
  granted : grant ∈ membership.grants
  bindingScope : binding.scope = caller.scope
  bindingId : binding.bindingId ≠ "" ∧ binding.bindingId.utf8ByteSize ≤ 96
  origin : caller.channel.allowed binding = true

/-- The context that the answers of the host give a caller. -/
def contextOf (caller : Caller) (session : SessionFacts) (membership : MembershipFacts)
    (binding : BindingFacts) : TrustedContext where
  actor := session.actor
  scope := caller.scope
  roles := membership.roles
  membershipRevision := membership.revision
  bindingId := binding.bindingId

/-- The host holds the caller for the context, and the caller has the grant. -/
def SessionVerifier.Grants (host : SessionVerifier) (caller : Caller) (grant : Grant)
    (context : TrustedContext) : Prop :=
  ∃ session membership binding,
    host.accessSnapshot caller.credential caller.scope = .ok (session, membership, binding) ∧
      Evobase.Grants caller grant (host.currentTime caller.now) session membership binding ∧
      context = contextOf caller session membership binding

/-- A context is resolved exactly when the caller has the grant. -/
theorem SessionVerifier.resolve_eq_ok {host : SessionVerifier} {caller : Caller} {grant : Grant}
    {context : TrustedContext} :
    host.resolve caller grant = .ok context ↔ host.Grants caller grant context := by
  simp only [resolve, bind_eq_ok, rejectIf_eq_ok, not_or, not_le, ne_eq, not_not,
    Bool.not_eq_true, Bool.not_eq_false, not_lt, Except.ok.injEq]
  constructor
  · rintro ⟨-, hcredential, ⟨session, membership, binding⟩, hfacts, -, hrevoked, -, hexpires, -,
      ⟨hactor, hscope⟩, -, ⟨hactive, hrevision⟩, -, hgrant, -, hbinding, -, hid, -, horigin, rfl⟩
    exact ⟨session, membership, binding, hfacts, ⟨hcredential, hrevoked, hexpires, hactor, hscope,
      hactive, hrevision, hgrant, hbinding, hid, horigin⟩, rfl⟩
  · rintro ⟨session, membership, binding, hfacts, h, rfl⟩
    exact ⟨(), h.presented, (session, membership, binding), hfacts, (), h.unrevoked, (),
      h.unexpired, (), ⟨h.sameActor, h.memberScope⟩, (), ⟨h.active, h.revision⟩, (), h.granted, (),
      h.bindingScope, (), h.bindingId, (), h.origin, rfl⟩

theorem SessionVerifier.scope_of_resolve {host : SessionVerifier} {caller : Caller}
    {grant : Grant} {context : TrustedContext} (h : host.resolve caller grant = .ok context) :
    context.scope = caller.scope := by
  obtain ⟨session, membership, binding, -, -, rfl⟩ := resolve_eq_ok.1 h
  rfl

end Evobase
