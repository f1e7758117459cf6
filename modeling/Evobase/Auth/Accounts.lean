import Evobase.Auth.Service
import Evobase.Foundation.ParseInt
import Evobase.Foundation.Run

/-!
# Accounts

What the authentication service is for: accounts with a username and a password, and the tokens
that have been granted to them. Here a password is compared and a token is looked up; there is no
hash and no signature. While nobody presents a token that the service accepts for a use and has not
handed out under the key of that use, and no hash of a password of the run verifies another password
of the run, the service answers every run of calls as the accounts do (`serves_accounts`).

The two sides are run together, call by call, over one sequence of answers of the database and of
clocks. What is asked of the crates is asked of the passwords and the tokens of the run
(`AuthCrates.Separates`), not of all inputs.
-/

namespace Evobase

open Foundation

structure Account (U : Type) where
  id : U
  username : String
  password : String

/-- A token that has been handed out. -/
structure TokenGrant (U : Type) where
  token : String
  kind : TokenKind
  userId : U
  exp : U64

structure Accounts (U : Type) where
  members : List (Account U)
  grants : List (TokenGrant U)

section Accounts

variable {U S H K : Type} {service : JwtAuthService U S H K}

/-- The tokens that a reply has granted, with the time at which they expire. -/
def JwtAuthService.grantsOf (service : JwtAuthService U S H K) (clock : TokenKind → Clock) :
    AppResult (AuthResponse U) → List (TokenGrant U)
  | .error _ => []
  | .ok response =>
      [TokenKind.access, .refresh, .notification].filterMap fun kind =>
        (clock kind).toOption.map fun now =>
          ⟨response.tokens.token kind, kind, response.userId,
            saturatingAdd now (service.tokenConfig.ttlSecs kind)⟩

namespace Accounts

def new : Accounts U := ⟨[], []⟩

def grant (accounts : Accounts U) (grants : List (TokenGrant U)) : Accounts U :=
  { accounts with grants := accounts.grants ++ grants }

variable [DecidableEq U] [DecidableEq K]

/-- The user to whom a token was granted for a use, or for one with the same key. -/
def redeem (service : JwtAuthService U S H K) (accounts : Accounts U) (kind : TokenKind)
    (now : U64) (token : String) : AppResult (AuthContext U) :=
  match accounts.grants.find? fun grant => grant.token = token ∧
      service.key kind = service.key grant.kind ∧ InTime now grant.exp with
  | some grant => .ok ⟨grant.userId⟩
  | none => .error .unauthorized

/-- An account is made when its username and its id are new. -/
def register (service : JwtAuthService U S H K) (accounts : Accounts U) (request : Credentials)
    (around : Surroundings U S) : AppResult (AuthResponse U) × Accounts U :=
  let username := service.crates.username request
  let accepted : AppResult String := do
    validateCredentials username request.password
    service.crates.hash around.salt request.password
  match accepted, around.fault with
  | .error error, _ => (.error error, accounts)
  | .ok _, .refused message => (.error (.database message), accounts)
  | .ok _, fault =>
      if around.newId ∈ accounts.members.map (·.id) ∨
          username ∈ accounts.members.map (·.username) then
        (fault.answer () >>= fun _ => .error (.conflict "username is already registered"), accounts)
      else
        (fault.answer () >>= fun _ =>
          service.buildAuthResponse around.newId username around.clock,
          { accounts with
            members := accounts.members ++ [⟨around.newId, username, request.password⟩] })

def login (service : JwtAuthService U S H K) (accounts : Accounts U) (request : Credentials)
    (around : Surroundings U S) : AppResult (AuthResponse U) := do
  let username := service.crates.username request
  let some account ← around.fault.answer
      (accounts.members.find? fun account => account.username = username)
    | .error .unauthorized
  rejectIf (request.password ≠ account.password) AppError.unauthorized
  service.buildAuthResponse account.id account.username around.clock

def refresh (service : JwtAuthService U S H K) (accounts : Accounts U) (token : String)
    (now : U64) (around : Surroundings U S) : AppResult (AuthResponse U) := do
  let auth ← accounts.redeem service .refresh now token
  let some account ← around.fault.answer
      (accounts.members.find? fun account => account.id = auth.userId)
    | .error .unauthorized
  service.buildAuthResponse account.id account.username around.clock

def step (service : JwtAuthService U S H K) (accounts : Accounts U) :
    AuthCall U S → AuthReply U × Accounts U
  | .register request around =>
      let registered := accounts.register service request around
      (.response registered.1, registered.2.grant (service.grantsOf around.clock registered.1))
  | .login request around =>
      let result := accounts.login service request around
      (.response result, accounts.grant (service.grantsOf around.clock result))
  | .refresh token now around =>
      let result := accounts.refresh service token now around
      (.response result, accounts.grant (service.grantsOf around.clock result))
  | .verifyAccessToken token now => (.context (accounts.redeem service .access now token), accounts)
  | .verifyNotificationToken token now =>
      (.context (accounts.redeem service .notification now token), accounts)

omit [DecidableEq U] in
@[simp] theorem members_grant (accounts : Accounts U) (grants : List (TokenGrant U)) :
    (accounts.grant grants).members = accounts.members := rfl

theorem step_register (service : JwtAuthService U S H K) (accounts : Accounts U)
    (request : Credentials) (around : Surroundings U S) :
    accounts.step service (.register request around) =
      (.response (accounts.register service request around).1,
        (accounts.register service request around).2.grant
          (service.grantsOf around.clock (accounts.register service request around).1)) := rfl

end Accounts

/-- The tokens that clients hold, with the uses for which they were handed out. -/
def JwtAuthService.handOut [DecidableEq U] (service : JwtAuthService U S H K) (table : UsersTable U)
    (held : List (TokenKind × String)) (call : AuthCall U S) : List (TokenKind × String) :=
  held ++ (service.step table call).1.tokens

/-- A client that presents a token which the service accepts holds it: it was handed out for a use
with the same key. -/
def JwtAuthService.Unforged [DecidableEq K] (service : JwtAuthService U S H K)
    (state : UsersTable U × List (TokenKind × String)) (call : AuthCall U S) : Prop :=
  ∀ presented ∈ call.presented?,
    (service.crates.decode (service.key presented.1) presented.2.2 presented.2.1).isSome →
      ∃ held ∈ state.2, held.2 = presented.2.1 ∧ service.key presented.1 = service.key held.1

instance [DecidableEq K] (state : UsersTable U × List (TokenKind × String)) (call : AuthCall U S) :
    Decidable (service.Unforged state call) :=
  inferInstanceAs (Decidable (∀ presented ∈ call.presented?, _ → _))

/-- The row of an account has a hash of its password, which a registration of the run has made. -/
def JwtAuthService.RowOf (service : JwtAuthService U S H K) (calls : List (AuthCall U S))
    (row : UserRecord U) (account : Account U) : Prop :=
  row.id = account.id ∧ row.username = account.username ∧
    ∃ request around, .register request around ∈ calls ∧ request.password = account.password ∧
      service.crates.hashPassword around.salt request.password = .ok row.passwordHash

/-- The table has a row for every account, and the tokens that clients hold are the signed ones. -/
structure JwtAuthService.Represents (service : JwtAuthService U S H K)
    (calls : List (AuthCall U S)) (state : UsersTable U × List (TokenKind × String))
    (accounts : Accounts U) : Prop where
  rows : List.Forall₂ (service.RowOf calls) state.1.rows accounts.members
  signed : ∀ grant ∈ accounts.grants,
    service.crates.encode (service.key grant.kind) ⟨grant.userId, grant.exp⟩ = .ok grant.token
  held : ∀ held ∈ state.2, ∃ grant ∈ accounts.grants, grant.token = held.2 ∧ grant.kind = held.1

variable {calls : List (AuthCall U S)} {table : UsersTable U} {held : List (TokenKind × String)}
  {accounts : Accounts U} {userId : U}
  {username : String} {clock : TokenKind → Clock} {response : AuthResponse U} {kind : TokenKind}
  {now : U64} {token : String}

theorem map_id_of_rows {rows : List (UserRecord U)} {members : List (Account U)}
    (h : List.Forall₂ (service.RowOf calls) rows members) : rows.map (·.id) = members.map (·.id) :=
  map_eq_map_of_forall₂ (fun _ _ hrow => hrow.1) h

theorem map_username_of_rows {rows : List (UserRecord U)} {members : List (Account U)}
    (h : List.Forall₂ (service.RowOf calls) rows members) :
    rows.map (·.username) = members.map (·.username) :=
  map_eq_map_of_forall₂ (fun _ _ hrow => hrow.2.1) h

theorem issueToken_eq_ok {clock : Clock} (h : service.issueToken userId kind clock = .ok token) :
    ∃ now, clock = .ok now ∧ service.crates.encode (service.key kind)
      ⟨userId, saturatingAdd now (service.tokenConfig.ttlSecs kind)⟩ = .ok token := by
  cases clock with
  | error message => simp [JwtAuthService.issueToken, Except.mapError, bind, Except.bind] at h
  | ok now =>
      refine ⟨now, rfl, ?_⟩
      simp only [JwtAuthService.issueToken, Except.mapError, bind, Except.bind] at h
      cases hencode : service.crates.encode (service.key kind)
        ⟨userId, saturatingAdd now (service.tokenConfig.ttlSecs kind)⟩ with
      | error message => rw [hencode] at h; cases h
      | ok signed => rw [hencode] at h; cases h; rfl

theorem buildAuthResponse_eq_ok
    (h : service.buildAuthResponse userId username clock = .ok response) :
    response.userId = userId ∧ response.username = username ∧
      ∀ kind, service.issueToken userId kind (clock kind) = .ok (response.tokens.token kind) := by
  obtain ⟨tokens, htokens, hresponse⟩ := bind_eq_ok.1 h
  obtain rfl := Except.ok.inj hresponse
  obtain ⟨accessToken, haccess, htokens⟩ := bind_eq_ok.1 htokens
  obtain ⟨refreshToken, hrefresh, htokens⟩ := bind_eq_ok.1 htokens
  obtain ⟨notificationToken, hnotification, htokens⟩ := bind_eq_ok.1 htokens
  obtain rfl := Except.ok.inj htokens
  refine ⟨rfl, rfl, fun kind => ?_⟩
  cases kind
  · exact haccess
  · exact hrefresh
  · exact hnotification

theorem grantsOf_buildAuthResponse
    (h : service.buildAuthResponse userId username clock = .ok response) :
    (∀ grant ∈ service.grantsOf clock (.ok response), grant.userId = userId ∧
      service.crates.encode (service.key grant.kind) ⟨grant.userId, grant.exp⟩ = .ok grant.token) ∧
      ∀ kind, ∃ grant ∈ service.grantsOf clock (.ok response),
        grant.kind = kind ∧ grant.token = response.tokens.token kind := by
  obtain ⟨huser, -, htokens⟩ := buildAuthResponse_eq_ok h
  constructor
  · intro grant hgrant
    simp only [JwtAuthService.grantsOf, List.mem_filterMap, Option.map_eq_some_iff] at hgrant
    obtain ⟨kind, -, now, hnow, rfl⟩ := hgrant
    obtain ⟨now', hclock, hsigned⟩ := issueToken_eq_ok (htokens kind)
    rw [hclock] at hnow
    obtain rfl := Option.some.inj hnow
    exact ⟨huser, huser ▸ hsigned⟩
  · intro kind
    obtain ⟨now, hclock, -⟩ := issueToken_eq_ok (htokens kind)
    refine ⟨⟨response.tokens.token kind, kind, response.userId,
      saturatingAdd now (service.tokenConfig.ttlSecs kind)⟩, List.mem_filterMap.2 ⟨kind, ?_, ?_⟩,
      rfl, rfl⟩
    · cases kind <;> simp
    · rw [hclock]
      rfl

section Responses

variable {request : Credentials} {around : Surroundings U S}

theorem answer_eq_ok {α : Type} {fault : Fault} {rows found : α} (h : fault.answer rows = .ok found) :
    rows = found := by
  cases fault with
  | none => exact Except.ok.inj h
  | refused message | lost message => cases h

theorem register_eq_ok [DecidableEq U] (h : (accounts.register service request around).1 = .ok response) :
    service.buildAuthResponse around.newId (service.crates.username request) around.clock =
        .ok response ∧
      (accounts.register service request around).2.members = accounts.members ++
        [⟨around.newId, service.crates.username request, request.password⟩] := by
  unfold Accounts.register at h ⊢
  dsimp only at h ⊢
  cases haccepted : (do
      validateCredentials (service.crates.username request) request.password
      service.crates.hash around.salt request.password) with
  | error error =>
      rw [haccepted] at h
      cases h
  | ok passwordHash =>
      rw [haccepted] at h
      cases hfault : around.fault with
      | refused message =>
          rw [hfault] at h
          cases h
      | none | lost message =>
          rw [hfault] at h
          dsimp only at h ⊢
          split_ifs at h ⊢
          · obtain ⟨_, _, hconflict⟩ := bind_eq_ok.1 h
            cases hconflict
          · obtain ⟨_, _, hbuild⟩ := bind_eq_ok.1 h
            exact ⟨hbuild, rfl⟩

theorem members_register [DecidableEq U] :
    (accounts.register service request around).2.members = accounts.members ∨
      validateCredentials (service.crates.username request) request.password = .ok () ∧
        (accounts.register service request around).2.members = accounts.members ++
          [⟨around.newId, service.crates.username request, request.password⟩] := by
  unfold Accounts.register
  dsimp only
  cases haccepted : (do
      validateCredentials (service.crates.username request) request.password
      service.crates.hash around.salt request.password) with
  | error error => exact .inl rfl
  | ok passwordHash =>
      obtain ⟨⟨⟩, hvalid, -⟩ := bind_eq_ok.1 haccepted
      cases around.fault with
      | refused message => exact .inl rfl
      | none | lost message =>
          dsimp only
          split_ifs
          · exact .inl rfl
          · exact .inr ⟨hvalid, rfl⟩

theorem grants_register [DecidableEq U] :
    (accounts.register service request around).2.grants = accounts.grants := by
  unfold Accounts.register
  dsimp only
  split <;> try rfl
  split_ifs <;> rfl

theorem login_eq_ok (h : accounts.login service request around = .ok response) :
    ∃ account ∈ accounts.members, account.username = service.crates.username request ∧
      account.password = request.password ∧
      service.buildAuthResponse account.id account.username around.clock = .ok response := by
  obtain ⟨found, hfound, h⟩ := bind_eq_ok.1 h
  cases found with
  | none => cases h
  | some account =>
      obtain ⟨_, hpassword, hbuild⟩ := bind_eq_ok.1 h
      have hfind := answer_eq_ok hfound
      have husername := List.find?_some hfind
      refine ⟨account, List.mem_of_find?_eq_some hfind, of_decide_eq_true husername, ?_, hbuild⟩
      exact (not_not.1 (rejectIf_eq_ok.1 hpassword)).symm

theorem refresh_eq_ok [DecidableEq U] [DecidableEq K] (h : accounts.refresh service token now around = .ok response) :
    ∃ account ∈ accounts.members,
      accounts.redeem service .refresh now token = .ok ⟨account.id⟩ ∧
      service.buildAuthResponse account.id account.username around.clock = .ok response := by
  obtain ⟨auth, hauth, h⟩ := bind_eq_ok.1 h
  obtain ⟨found, hfound, h⟩ := bind_eq_ok.1 h
  cases found with
  | none => cases h
  | some account =>
      have hfind := answer_eq_ok hfound
      have hfound := List.find?_some hfind
      have hid : account.id = auth.userId := of_decide_eq_true hfound
      exact ⟨account, List.mem_of_find?_eq_some hfind, hid ▸ hauth, h⟩

end Responses

namespace JwtAuthService.Represents

theorem decodeToken_eq [DecidableEq K] (h : service.Represents calls (table, held) accounts)
    (hlawful : service.crates.Lawful)
    (hheld : (service.crates.decode (service.key kind) now token).isSome →
      ∃ handed ∈ held, handed.2 = token ∧ service.key kind = service.key handed.1) :
    service.decodeToken kind now token = accounts.redeem service kind now token := by
  unfold JwtAuthService.decodeToken Accounts.redeem
  cases hfind : accounts.grants.find? fun grant => grant.token = token ∧
      service.key kind = service.key grant.kind ∧ InTime now grant.exp with
  | some grant =>
      have hgrant := List.find?_some hfind
      obtain ⟨rfl, hkey, htime⟩ := of_decide_eq_true hgrant
      have hdecode := hlawful.decodes _ _ _ (h.signed grant (List.mem_of_find?_eq_some hfind)) now
      rw [hkey, hdecode, if_pos htime]
  | none =>
      cases hdecode : service.crates.decode (service.key kind) now token with
      | none => rfl
      | some claims =>
          obtain ⟨handed, hmem, rfl, hkey⟩ := hheld (by rw [hdecode]; rfl)
          obtain ⟨grant, hgrant, htoken, hkind⟩ := h.held handed hmem
          rw [← hkind] at hkey
          have hrefused := List.find?_eq_none.1 hfind grant hgrant
          rw [hkey, ← htoken, hlawful.decodes _ _ _ (h.signed grant hgrant)] at hdecode
          split_ifs at hdecode with haccepted
          exact absurd (decide_eq_true ⟨htoken, hkey, haccepted⟩) hrefused

theorem grant (h : service.Represents calls (table, held) accounts) {result : AppResult (AuthResponse U)}
    (hresult : ∀ response, result = .ok response → ∃ userId username,
      service.buildAuthResponse userId username clock = .ok response) :
    service.Represents calls (table, held ++ (AuthReply.response result).tokens)
      (accounts.grant (service.grantsOf clock result)) := by
  cases result with
  | error error =>
      simpa [AuthReply.tokens, JwtAuthService.grantsOf, Accounts.grant] using h
  | ok response =>
      obtain ⟨userId, username, hbuild⟩ := hresult response rfl
      obtain ⟨hsigned, hgranted⟩ := grantsOf_buildAuthResponse hbuild
      refine ⟨h.rows, fun grant hgrant => ?_, fun token htoken => ?_⟩
      · rcases List.mem_append.1 hgrant with hold | hnew
        · exact h.signed grant hold
        · exact (hsigned grant hnew).2
      · rcases List.mem_append.1 htoken with hold | hnew
        · obtain ⟨grant, hgrant, heq⟩ := h.held token hold
          exact ⟨grant, List.mem_append_left _ hgrant, heq⟩
        · have hkind : token.2 = response.tokens.token token.1 := by
            simp only [AuthReply.tokens, List.mem_cons, List.not_mem_nil, or_false] at hnew
            rcases hnew with rfl | rfl | rfl <;> rfl
          obtain ⟨grant, hgrant, hsame, heq⟩ := hgranted token.1
          exact ⟨grant, List.mem_append_right _ hgrant, heq.trans hkind.symm, hsame⟩

theorem new : service.Represents calls (UsersTable.empty, []) Accounts.new where
  rows := .nil
  signed := fun _ hgrant => absurd hgrant List.not_mem_nil
  held := fun _ htoken => absurd htoken List.not_mem_nil

theorem find?_rows (h : service.Represents calls (table, held) accounts)
    {p : UserRecord U → Bool} {q : Account U → Bool}
    (hpq : ∀ row account, service.RowOf calls row account → p row = q account) :
    Option.Rel (service.RowOf calls) (table.rows.find? p) (accounts.members.find? q) :=
  forall₂_find? hpq h.rows

theorem hash_eq_ok {salt : S} {password passwordHash : String}
    (h : service.crates.hash salt password = .ok passwordHash) :
    service.crates.hashPassword salt password = .ok passwordHash := by
  unfold AuthCrates.hash at h
  cases hhash : service.crates.hashPassword salt password with
  | error message => rw [hhash] at h; cases h
  | ok text => rw [hhash] at h; cases h; rfl

theorem verify_eq {row : UserRecord U} {account : Account U} (h : service.RowOf calls row account)
    (hlawful : service.crates.Lawful) (hseparates : service.crates.Separates calls)
    {request : Credentials} {around : Surroundings U S} (hcall : .login request around ∈ calls) :
    service.crates.verify request.password row.passwordHash =
      rejectIf (request.password ≠ account.password) AppError.unauthorized := by
  obtain ⟨-, -, registered, surroundings, hregistered, hpassword, htext⟩ := h
  obtain ⟨hash, hparse, hverifies⟩ := hlawful.verifies _ _ _ htext
  rw [AuthCrates.verify, hparse]
  by_cases heq : request.password = account.password
  · have haccepts : service.crates.verifyPassword request.password hash = true := by
      rw [heq, ← hpassword]
      exact hverifies
    simp [Except.mapError, rejectIf, heq, heq ▸ haccepts, bind, Except.bind]
  · have hrefuses : service.crates.verifyPassword request.password hash ≠ true := by
      intro haccepts
      have hsame := hseparates registered surroundings hregistered request around hcall row.passwordHash
        hash htext hparse haccepts
      exact heq (hsame.trans hpassword)
    simp [Except.mapError, rejectIf, heq, hrefuses, bind, Except.bind]

variable {request : Credentials} {around : Surroundings U S}

theorem login_eq (h : service.Represents calls (table, held) accounts)
    (hlawful : service.crates.Lawful) (hseparates : service.crates.Separates calls)
    (hcall : .login request around ∈ calls) :
    service.login table request around = accounts.login service request around := by
  unfold JwtAuthService.login Accounts.login UsersTable.findUserByUsername
  dsimp only
  have hfind := h.find?_rows (p := fun row => row.username = service.crates.username request)
    (q := fun account => account.username = service.crates.username request)
    fun row account hrow => by rw [hrow.2.1]
  generalize table.rows.find? _ = found at hfind ⊢
  generalize accounts.members.find? _ = found' at hfind ⊢
  cases around.fault with
  | none =>
      cases hfind with
      | none => rfl
      | @some row account hrow =>
          have hverify := verify_eq hrow hlawful hseparates hcall
          obtain ⟨hid, husername, -⟩ := hrow
          change (service.crates.verify request.password row.passwordHash >>= fun _ =>
              service.buildAuthResponse row.id row.username around.clock) = _
          rw [hverify, hid, husername]
          rfl
  | refused message => rfl
  | lost message => rfl

variable [DecidableEq U] [DecidableEq K]

theorem refresh_eq (h : service.Represents calls (table, held) accounts)
    (hdecode : service.decodeToken .refresh now token = accounts.redeem service .refresh now token) :
    service.refresh table token now around = accounts.refresh service token now around := by
  unfold JwtAuthService.refresh Accounts.refresh UsersTable.findUserById
  rw [hdecode]
  cases accounts.redeem service .refresh now token with
  | error error => rfl
  | ok auth =>
      have hfind := h.find?_rows (p := fun row => row.id = auth.userId)
        (q := fun account => account.id = auth.userId) fun row account hrow => by rw [hrow.1]
      simp only [ok_bind]
      generalize table.rows.find? _ = found at hfind ⊢
      generalize accounts.members.find? _ = found' at hfind ⊢
      cases around.fault with
      | none =>
          cases hfind with
          | none => rfl
          | @some row account hrow =>
              obtain ⟨hid, husername, -⟩ := hrow
              change service.buildAuthResponse row.id row.username around.clock = _
              rw [hid, husername]
              rfl
      | refused message => rfl
      | lost message => rfl

omit [DecidableEq K] in
/-- The new account has the new row. -/
theorem register_eq (h : service.Represents calls (table, held) accounts)
    (hcall : .register request around ∈ calls) :
    (service.register table request around).1 = (accounts.register service request around).1 ∧
      List.Forall₂ (service.RowOf calls) (service.register table request around).2.rows
        (accounts.register service request around).2.members := by
  unfold JwtAuthService.register Accounts.register
  dsimp only
  cases haccepted : (do
      validateCredentials (service.crates.username request) request.password
      service.crates.hash around.salt request.password) with
  | error error => exact ⟨rfl, h.rows⟩
  | ok passwordHash =>
      obtain ⟨-, -, hhash⟩ := bind_eq_ok.1 haccepted
      have htaken : table.Taken around.newId (service.crates.username request) ↔
          around.newId ∈ accounts.members.map (·.id) ∨
            service.crates.username request ∈ accounts.members.map (·.username) := by
        rw [UsersTable.Taken, map_id_of_rows h.rows, map_username_of_rows h.rows]
      have hrow : service.RowOf calls ⟨around.newId, service.crates.username request, passwordHash⟩
          ⟨around.newId, service.crates.username request, request.password⟩ :=
        ⟨rfl, rfl, request, around, hcall, rfl, hash_eq_ok hhash⟩
      cases hfault : around.fault with
      | refused message => exact ⟨rfl, h.rows⟩
      | none | lost message =>
          have hrun : ∀ message, around.fault ≠ .refused message := by simp [hfault]
          dsimp only
          by_cases hknown : table.Taken around.newId (service.crates.username request)
          · have hcreated := UsersTable.createUser_of_taken hknown hrun passwordHash
            rw [hfault] at hcreated
            rw [hcreated, if_pos (htaken.1 hknown)]
            exact ⟨rfl, h.rows⟩
          · have hcreated := UsersTable.createUser_of_new hknown hrun passwordHash
            rw [hfault] at hcreated
            rw [hcreated.1, hcreated.2, if_neg (mt htaken.2 hknown)]
            exact ⟨rfl, List.rel_append h.rows (.cons hrow .nil)⟩

theorem step (h : service.Represents calls (table, held) accounts)
    (hlawful : service.crates.Lawful) (hseparates : service.crates.Separates calls)
    {call : AuthCall U S} (hcall : service.Unforged (table, held) call) (hmem : call ∈ calls) :
    (service.step table call).1 = (accounts.step service call).1 ∧
      service.Represents calls ((service.step table call).2, service.handOut table held call)
        (accounts.step service call).2 := by
  cases call with
  | register request around =>
      obtain ⟨hreply, hrows⟩ : (service.register table request around).1 =
            (accounts.register service request around).1 ∧ _ :=
        h.register_eq hmem
      have hgrants : (accounts.register service request around).2.grants = accounts.grants :=
        grants_register
      have hnext : service.Represents calls ((service.register table request around).2, held)
          (accounts.register service request around).2 :=
        ⟨hrows, by rw [hgrants]; exact h.signed, by rw [hgrants]; exact h.held⟩
      have hgranted : service.Represents calls ((service.register table request around).2,
          held ++ (AuthReply.response (accounts.register service request around).1).tokens)
          ((accounts.register service request around).2.grant
            (service.grantsOf around.clock (accounts.register service request around).1)) := by
        refine hnext.grant fun response hresponse => ?_
        obtain ⟨hbuild, -⟩ := register_eq_ok hresponse
        exact ⟨around.newId, service.crates.username request, hbuild⟩
      refine ⟨congrArg AuthReply.response hreply, ?_⟩
      rw [JwtAuthService.handOut, JwtAuthService.step]
      dsimp only
      rw [hreply]
      exact hgranted
  | login request around =>
      have hreply : service.login table request around = accounts.login service request around :=
        h.login_eq hlawful hseparates hmem
      have hgranted : service.Represents calls
          (table, held ++ (AuthReply.response (accounts.login service request around)).tokens)
          (accounts.grant (service.grantsOf around.clock
            (accounts.login service request around))) := by
        refine h.grant fun response hresponse => ?_
        obtain ⟨account, -, -, -, hbuild⟩ := login_eq_ok hresponse
        exact ⟨account.id, account.username, hbuild⟩
      refine ⟨congrArg AuthReply.response hreply, ?_⟩
      rw [JwtAuthService.handOut, JwtAuthService.step, hreply]
      exact hgranted
  | refresh token now around =>
      have hreply : service.refresh table token now around =
          accounts.refresh service token now around :=
        h.refresh_eq (h.decodeToken_eq hlawful (hcall (.refresh, token, now) rfl))
      have hgranted : service.Represents calls
          (table, held ++ (AuthReply.response (accounts.refresh service token now around)).tokens)
          (accounts.grant (service.grantsOf around.clock
            (accounts.refresh service token now around))) := by
        refine h.grant fun response hresponse => ?_
        obtain ⟨account, -, -, hbuild⟩ := refresh_eq_ok hresponse
        exact ⟨account.id, account.username, hbuild⟩
      refine ⟨congrArg AuthReply.response hreply, ?_⟩
      rw [JwtAuthService.handOut, JwtAuthService.step, hreply]
      exact hgranted
  | verifyAccessToken token now =>
      have hdecode := h.decodeToken_eq hlawful (hcall (.access, token, now) rfl)
      have hheld : service.handOut table held (.verifyAccessToken token now) = held :=
        List.append_nil held
      rw [hheld]
      exact ⟨congrArg AuthReply.context hdecode, h⟩
  | verifyNotificationToken token now =>
      have hdecode := h.decodeToken_eq hlawful (hcall (.notification, token, now) rfl)
      have hheld : service.handOut table held (.verifyNotificationToken token now) = held :=
        List.append_nil held
      rw [hheld]
      exact ⟨congrArg AuthReply.context hdecode, h⟩

end JwtAuthService.Represents

/-- While no token is forged and the passwords of the run are told apart by their hashes, the service
answers a run as the accounts do, and its table has a row for every account, with a hash of its
password. -/
theorem serves_accounts [DecidableEq U] [DecidableEq K] (hlawful : service.crates.Lawful)
    {calls : List (AuthCall U S)} (hseparates : service.crates.Separates calls)
    (hunforged : EachCall (observed service.step service.handOut) service.Unforged
      (UsersTable.empty, []) calls) :
    (runCalls service.step UsersTable.empty calls).1 =
        (runCalls (Accounts.step service) Accounts.new calls).1 ∧
      List.Forall₂ (service.RowOf calls) (runCalls service.step UsersTable.empty calls).2.rows
        (runCalls (Accounts.step service) Accounts.new calls).2.members := by
  obtain ⟨hreplies, hlast⟩ := runCalls_simulation (service.Represents calls)
    (fun s call => service.Unforged s call ∧ call ∈ calls)
    (fun s accounts call hcall h => h.step hlawful hseparates hcall.1 hcall.2)
    JwtAuthService.Represents.new hunforged.mem
  obtain ⟨hhistory, htable⟩ :=
    runCalls_observed service.step service.handOut (UsersTable.empty, []) calls
  exact ⟨hhistory.symm.trans hreplies, htable ▸ hlast.rows⟩

end Accounts

def checksum (text : List Char) : Char :=
  Char.ofNat (33 + text.foldl (fun sum ch => (31 * sum + ch.toNat) % 94) 0)

/-- Crates with short checksums: a hash is the salt and a checksum, and a token is the user and the
expiry with a checksum of them and the secret before them. -/
def plainCrates : AuthCrates Char Char (Char × Char) String where
  toLowercase text := String.ofList (text.toList.map Char.toLower)
  hashPassword salt password := .ok (String.ofList [salt, checksum (salt :: password.toList)])
  parseHash text :=
    match text.toList with
    | [salt, sum] => .ok (salt, sum)
    | _ => .error "invalid hash"
  verifyPassword password hash := checksum (hash.1 :: password.toList) = hash.2
  fromSecret secret := secret
  encode key claims :=
    let payload := claims.sub :: (toString claims.exp.val).toList
    .ok (String.ofList (checksum (key.toList ++ payload) :: payload))
  decode key now token :=
    match token.toList with
    | sum :: sub :: digits =>
        match U64.parse (String.ofList digits) with
        | .ok exp =>
            if sum = checksum (key.toList ++ sub :: digits) ∧ InTime now exp then some ⟨sub, exp⟩
            else none
        | .error _ => none
    | _ => none

theorem lawful_plainCrates : plainCrates.Lawful where
  verifies salt password text h := by
    obtain rfl := Except.ok.inj h
    refine ⟨(salt, checksum (salt :: password.toList)), ?_, decide_eq_true rfl⟩
    simp only [plainCrates, String.toList_ofList]
  decodes key claims token h now := by
    obtain rfl := Except.ok.inj h
    simp only [plainCrates, String.toList_ofList, String.ofList_toList, U64.parse_toString, true_and]

def plainService : JwtAuthService Char Char (Char × Char) String where
  crates := plainCrates
  tokenConfig := ⟨"access", "refresh", "notify", U64.one, U64.one, U64.one⟩

def plainAround (id : Char) (now : U64) : Surroundings Char Char where
  salt := 's'
  newId := id
  fault := .none
  clock _ := .ok now

def plainToken (kind : TokenKind) (id : Char) : String :=
  let payload := [id, '2']
  String.ofList (checksum ((plainService.key kind).toList ++ payload) :: payload)

/-- A user who registers, logs in with a wrong and a right password, refreshes with a token and is
recognised by another, and someone else who makes up a token. -/
def plainCalls : List (AuthCall Char Char) :=
  [.register ⟨" Alice ", "password"⟩ (plainAround 'A' U64.one),
    .login ⟨"alice", "passwort"⟩ (plainAround 'B' U64.one),
    .login ⟨"alice", "password"⟩ (plainAround 'B' U64.one),
    .refresh (plainToken .refresh 'A') U64.one (plainAround 'B' U64.one),
    .verifyAccessToken (plainToken .access 'A') U64.one,
    .verifyAccessToken "mine" U64.one]

theorem separates_plainCalls : plainCrates.Separates plainCalls := by
  intro request around hregister other surroundings hlogin text hash htext hparse hverify
  simp only [plainCalls, List.mem_cons, List.not_mem_nil, reduceCtorEq, or_false, false_or,
    AuthCall.register.injEq, AuthCall.login.injEq] at hregister hlogin
  obtain ⟨rfl, rfl⟩ := hregister
  obtain rfl := Except.ok.inj htext
  obtain rfl := Except.ok.inj hparse
  rcases hlogin with ⟨rfl, rfl⟩ | ⟨rfl, rfl⟩
  · revert hverify
    decide +kernel
  · rfl

theorem unforged_plainCalls : EachCall (observed plainService.step plainService.handOut)
    plainService.Unforged (UsersTable.empty, []) plainCalls := by
  refine ⟨?_, ?_, ?_, ?_, ?_, ?_, trivial⟩
  all_goals decide +kernel

theorem serves_accounts_plain : (runCalls plainService.step UsersTable.empty plainCalls).1 =
      (runCalls (Accounts.step plainService) Accounts.new plainCalls).1 ∧
    List.Forall₂ (plainService.RowOf plainCalls)
      (runCalls plainService.step UsersTable.empty plainCalls).2.rows
      (runCalls (Accounts.step plainService) Accounts.new plainCalls).2.members :=
  serves_accounts lawful_plainCrates separates_plainCalls unforged_plainCalls

end Evobase
