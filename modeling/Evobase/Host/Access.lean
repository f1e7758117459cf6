import Evobase.AppSpec.Authority

/-!
# Pilot credentials

The host knows one credential, which its operator has issued: the digest of its token, its
actor, and what the actor may do. The source of these facts is asked at every resolution, so
two resolutions can be answered differently (`Moment`). An operation that must not mix two
answers pins one of them (`PilotVerifier.pinned`): then only the clock still moves, and the
contexts that it resolves for a caller are the same (`pinned_context`).
-/

namespace Evobase

open Foundation

inductive PilotGrant where
  | design
  | publish
  | manage
  | read
  | write
  | submit
deriving DecidableEq, Repr

def PilotGrant.toGrant : PilotGrant → Grant
  | .design => .design
  | .publish => .publish
  | .manage => .manage
  | .read => .read
  | .write => .write
  | .submit => .submit

/-- What the operator has issued. -/
structure PilotAccess where
  tokenSha256 : String
  actorId : String
  expiresAt : U64
  revoked : Bool
  active : Bool
  membershipRevision : U64
  roles : List String
  grants : List PilotGrant

def isLowerHex (c : Char) : Bool := c.isDigit || ('a' ≤ c && c ≤ 'f')

def isLowerHexText (text : String) : Bool :=
  text.utf8ByteSize = 64 && text.toList.all isLowerHex

def hexDigitValue (c : Char) : Nat := if c.isDigit then c.toNat - 48 else c.toNat - 87

def hexPairs : List Char → List UInt8
  | high :: low :: rest => .ofNat (16 * hexDigitValue high + hexDigitValue low) :: hexPairs rest
  | _ => []

def hexDigest (value : String) : Except AuthorityError (List UInt8) := do
  rejectIf (isLowerHexText value = false) .invalidIdentity
  .ok (hexPairs value.toList)

def ActorId.new (value : String) : Except AuthorityError ActorId :=
  if h : boundedId value "actor_" = true then .ok ⟨value, h⟩ else .error .invalidIdentity

def RoleId.new (value : String) : Except AuthorityError RoleId :=
  okOr .invalidIdentity (RoleId.ofText? value)

namespace PilotAccess

def validate (access : PilotAccess) : Except AuthorityError Unit := do
  let _ ← hexDigest access.tokenSha256
  let _ ← ActorId.new access.actorId
  rejectIf (access.roles.length > 64 ∨ access.grants.length > 6 ∨ access.expiresAt.val = 0)
    .invalidIdentity
  each (fun role => do
    let _ ← RoleId.new role
    .ok ()) access.roles

def membershipFrom (current : PilotAccess) (scope : Scope) :
    Except AuthorityError MembershipFacts := do
  let actor ← ActorId.new current.actorId
  let roles ← current.roles.mapM RoleId.new
  .ok {
    actor
    scope
    active := current.active
    revision := current.membershipRevision
    grants := current.grants.map PilotGrant.toGrant
    roles := .ofList roles }

end PilotAccess

/-- What the source of the access facts and the clock say at one moment; the clock has no time
before its epoch. -/
structure Moment where
  source : Except AuthorityError PilotAccess
  clock : Option U64

def Moment.current (moment : Moment) : Except AuthorityError PilotAccess := do
  let access ← moment.source
  access.validate
  .ok access

/-- The verifier of the host, with the digest that it compares tokens by. -/
structure PilotVerifier where
  scope : Scope
  bindingId : String
  origins : List String
  sha256 : String → List UInt8

namespace PilotVerifier

def allowsOrigin (verifier : PilotVerifier) (origin : String) : Bool :=
  origin ∈ verifier.origins

def sessionFrom (verifier : PilotVerifier) (current : PilotAccess) (credential : String) :
    Except AuthorityError SessionFacts := do
  rejectIf (isLowerHexText credential = false) .unverified
  let expected ← hexDigest current.tokenSha256
  rejectIf (verifier.sha256 credential ≠ expected) .unverified
  let actor ← ActorId.new current.actorId
  .ok { actor, expiresAt := current.expiresAt, revoked := current.revoked }

def registryBinding (verifier : PilotVerifier) (scope : Scope) :
    Except AuthorityError BindingFacts := do
  rejectIf (scope ≠ verifier.scope) .wrongScope
  .ok {
    scope := verifier.scope
    bindingId := verifier.bindingId
    allowedMutationOrigins := verifier.origins }

def currentTime (moment : Moment) : U64 :=
  moment.clock.getD U64.max

/-- The verifier as it answers at one moment. The session and the membership come from one
answer of the source. -/
def asked (verifier : PilotVerifier) (moment : Moment) : SessionVerifier where
  currentTime _ := currentTime moment
  accessSnapshot credential scope := do
    let current ← moment.current
    let session ← verifier.sessionFrom current credential
    rejectIf (scope ≠ verifier.scope) .wrongScope
    let membership ← current.membershipFrom verifier.scope
    let binding ← verifier.registryBinding scope
    .ok (session, membership, binding)

/-- The verifier as it answers later in an operation that has pinned its access facts. -/
def pinned (verifier : PilotVerifier) (access : PilotAccess) (moment : Moment) : SessionVerifier :=
  verifier.asked { moment with source := .ok access }

/-- Pinned facts hold a caller for one context, whatever the clock and the grant. -/
theorem pinned_context {verifier : PilotVerifier} {access : PilotAccess} {moment moment' : Moment}
    {caller : Caller} {grant grant' : Grant} {context context' : TrustedContext}
    (h : (verifier.pinned access moment).resolve caller grant = .ok context)
    (h' : (verifier.pinned access moment').resolve caller grant' = .ok context') :
    context' = context := by
  obtain ⟨session, membership, binding, hfacts, -, rfl⟩ := SessionVerifier.resolve_eq_ok.1 h
  obtain ⟨session', membership', binding', hfacts', -, rfl⟩ := SessionVerifier.resolve_eq_ok.1 h'
  have hsame : (verifier.pinned access moment').accessSnapshot caller.credential caller.scope =
      (verifier.pinned access moment).accessSnapshot caller.credential caller.scope := rfl
  rw [hsame, hfacts] at hfacts'
  obtain ⟨rfl, rfl, rfl⟩ : session = session' ∧ membership = membership' ∧ binding = binding' := by
    simpa using hfacts'
  rfl

end PilotVerifier

end Evobase
