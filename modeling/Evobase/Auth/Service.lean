import Evobase.Db.Users

/-!
# The authentication service

The service keeps the users in the table `auth.users`, with a hash for a password, and hands out
tokens signed with three keys. The hasher, the signer and the tables of letters are crates that it
calls. `AuthCrates.Lawful` is what they always do: a hash verifies its own password, and a token is
accepted under its own key. That a hash verifies no other password cannot hold of all passwords; it
is assumed of the passwords of a run alone (`AuthCrates.Separates`). Every call runs one statement
at most, so a run is a list of calls, each with what the service finds around it: its salt, the id
that the database makes, how the statement fares and what the clock says.
-/

namespace Evobase

open Foundation

def saturatingAdd (a b : U64) : U64 := (a.checkedAdd b).getD U64.max

/-- The crates that the service calls, with their salts, hashes and keys. -/
structure AuthCrates (U S H K : Type) where
  toLowercase : String → String
  hashPassword : S → String → Except String String
  parseHash : String → Except String H
  verifyPassword : String → H → Bool
  fromSecret : String → K
  encode : K → TokenClaims U → Except String String
  decode : K → U64 → String → Option (TokenClaims U)

def leeway : Int := 60

def InTime (now exp : U64) : Prop := now.val ≤ exp.val + leeway

instance (now exp : U64) : Decidable (InTime now exp) := inferInstanceAs (Decidable (_ ≤ _))

/-- A hash verifies its password, and a token is accepted under the key that has signed it, for what
it says, while it is in time. -/
structure AuthCrates.Lawful {U S H K : Type} (crates : AuthCrates U S H K) : Prop where
  verifies : ∀ salt password text, crates.hashPassword salt password = .ok text →
    ∃ hash, crates.parseHash text = .ok hash ∧ crates.verifyPassword password hash = true
  decodes : ∀ key claims token, crates.encode key claims = .ok token → ∀ now,
    crates.decode key now token = if InTime now claims.exp then some claims else none

/-- The clock, where a clock before the epoch has an error for its text. -/
abbrev Clock := Except String U64

/-- What a call finds around it. -/
structure Surroundings (U S : Type) where
  salt : S
  newId : U
  fault : Fault
  clock : TokenKind → Clock

section Service

variable {U S H K : Type} [DecidableEq U]

def isUsernameChar (ch : Char) : Bool := ch.isAlphanum || ch = '_' || ch = '-'

def validateCredentials (username password : String) : AppResult Unit := do
  let username := trim username
  rejectIf (username.utf8ByteSize < 3 ∨ 64 < username.utf8ByteSize)
    (AppError.badRequest "username must be between 3 and 64 characters")
  rejectIf (¬ username.toList.all isUsernameChar)
    (AppError.badRequest "username may only contain letters, numbers, `_`, and `-`")
  rejectIf (password.utf8ByteSize < 8)
    (AppError.badRequest "password must be at least 8 characters")

namespace AuthCrates

variable (crates : AuthCrates U S H K)

def username (request : Credentials) : String := crates.toLowercase (trim request.username)

def hash (salt : S) (password : String) : AppResult String :=
  (crates.hashPassword salt password).mapError fun error =>
    .internal ("failed to hash password: " ++ error)

def verify (password passwordHash : String) : AppResult Unit := do
  let parsedHash ← (crates.parseHash passwordHash).mapError fun error =>
    .internal ("stored password hash is invalid: " ++ error)
  rejectIf (crates.verifyPassword password parsedHash = false) AppError.unauthorized

end AuthCrates

structure JwtAuthService (U S H K : Type) where
  crates : AuthCrates U S H K
  tokenConfig : TokenConfig

namespace JwtAuthService

variable (service : JwtAuthService U S H K)

def key (kind : TokenKind) : K := service.crates.fromSecret (service.tokenConfig.secret kind)

def issueToken (userId : U) (kind : TokenKind) (clock : Clock) : AppResult String := do
  let now ← clock.mapError fun error => .internal ("system clock error: " ++ error)
  let exp := saturatingAdd now (service.tokenConfig.ttlSecs kind)
  (service.crates.encode (service.key kind) ⟨userId, exp⟩).mapError fun error =>
    .internal ("failed to encode token: " ++ error)

def issueBundle (userId : U) (clock : TokenKind → Clock) : AppResult TokenBundle := do
  let accessToken ← service.issueToken userId .access (clock .access)
  let refreshToken ← service.issueToken userId .refresh (clock .refresh)
  let notificationToken ← service.issueToken userId .notification (clock .notification)
  .ok ⟨accessToken, refreshToken, notificationToken, "Bearer", service.tokenConfig.accessTtlSecs⟩

def decodeToken (kind : TokenKind) (now : U64) (token : String) : AppResult (AuthContext U) :=
  match service.crates.decode (service.key kind) now token with
  | some claims => .ok ⟨claims.sub⟩
  | none => .error .unauthorized

def buildAuthResponse (userId : U) (username : String) (clock : TokenKind → Clock) :
    AppResult (AuthResponse U) := do
  let tokens ← service.issueBundle userId clock
  .ok ⟨userId, username, tokens⟩

/-- The user is stored before the tokens are issued. -/
def register (table : UsersTable U) (request : Credentials) (around : Surroundings U S) :
    AppResult (AuthResponse U) × UsersTable U :=
  let username := service.crates.username request
  let passwordHash : AppResult String := do
    validateCredentials username request.password
    service.crates.hash around.salt request.password
  match passwordHash with
  | .error error => (.error error, table)
  | .ok passwordHash =>
      let created := table.createUser around.fault around.newId username passwordHash
      (created.1 >>= fun user => service.buildAuthResponse user.id user.username around.clock,
        created.2)

def login (table : UsersTable U) (request : Credentials) (around : Surroundings U S) :
    AppResult (AuthResponse U) := do
  let username := service.crates.username request
  let some user ← table.findUserByUsername around.fault username
    | .error .unauthorized
  service.crates.verify request.password user.passwordHash
  service.buildAuthResponse user.id user.username around.clock

def refresh (table : UsersTable U) (refreshToken : String) (now : U64)
    (around : Surroundings U S) : AppResult (AuthResponse U) := do
  let auth ← service.decodeToken .refresh now refreshToken
  let some user ← table.findUserById around.fault auth.userId
    | .error .unauthorized
  service.buildAuthResponse user.id user.username around.clock

end JwtAuthService

inductive AuthCall (U S : Type) where
  | register (request : Credentials) (around : Surroundings U S)
  | login (request : Credentials) (around : Surroundings U S)
  | refresh (refreshToken : String) (now : U64) (around : Surroundings U S)
  | verifyAccessToken (token : String) (now : U64)
  | verifyNotificationToken (token : String) (now : U64)

inductive AuthReply (U : Type) where
  | response (result : AppResult (AuthResponse U))
  | context (result : AppResult (AuthContext U))

def JwtAuthService.step (service : JwtAuthService U S H K) (table : UsersTable U) :
    AuthCall U S → AuthReply U × UsersTable U
  | .register request around =>
      let registered := service.register table request around
      (.response registered.1, registered.2)
  | .login request around => (.response (service.login table request around), table)
  | .refresh refreshToken now around =>
      (.response (service.refresh table refreshToken now around), table)
  | .verifyAccessToken token now => (.context (service.decodeToken .access now token), table)
  | .verifyNotificationToken token now =>
      (.context (service.decodeToken .notification now token), table)

/-- The hash that a registration of the run makes of its password verifies no other password that a
login of the run presents. -/
def AuthCrates.Separates (crates : AuthCrates U S H K) (calls : List (AuthCall U S)) : Prop :=
  ∀ request around, .register request around ∈ calls →
    ∀ other surroundings, .login other surroundings ∈ calls →
      ∀ text hash, crates.hashPassword around.salt request.password = .ok text →
        crates.parseHash text = .ok hash → crates.verifyPassword other.password hash = true →
          other.password = request.password

/-- The token that a call presents, with its use and the time. -/
def AuthCall.presented? : AuthCall U S → Option (TokenKind × String × U64)
  | .register _ _ | .login _ _ => none
  | .refresh token now _ => some (.refresh, token, now)
  | .verifyAccessToken token now => some (.access, token, now)
  | .verifyNotificationToken token now => some (.notification, token, now)

/-- The tokens that a reply hands out, with their uses. -/
def AuthReply.tokens : AuthReply U → List (TokenKind × String)
  | .response (.ok { tokens, .. }) =>
      [(.access, tokens.accessToken), (.refresh, tokens.refreshToken),
        (.notification, tokens.notificationToken)]
  | _ => []

end Service

end Evobase
