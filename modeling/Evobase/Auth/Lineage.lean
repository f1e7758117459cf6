import Evobase.Auth.Accounts

/-!
# Where a token comes from

A response hands out three tokens. It answers the password of an account, or a refresh token of an
earlier response: so every token that is accepted leads back, by refreshes that each came in time,
to a password (`accepted_lineage`).

`Lineage` is inductive: a registration or a login with the password, or a refresh with a token
that leads back itself. `Traced` says it of every grant and of every token that has been accepted,
and each call keeps it.
-/

namespace Evobase

open Foundation

section Lineage

variable {U S H K : Type} {service : JwtAuthService U S H K}

abbrev AuthLog (U S : Type) := List (AuthCall U S × AuthReply U)

def AuthCall.credentials? : AuthCall U S → Option (Credentials × (TokenKind → Clock))
  | .register request around | .login request around => some (request, around.clock)
  | .refresh _ _ _ | .verifyAccessToken _ _ | .verifyNotificationToken _ _ => none

/-- The user that a reply recognises. -/
def AuthReply.user? : AuthReply U → Option U
  | .response (.ok { userId, .. }) => some userId
  | .context (.ok { userId }) => some userId
  | .response (.error _) | .context (.error _) => none

/-- A token is one of a bundle, signed with the key of its use, and in time. -/
def JwtAuthService.Redeems (service : JwtAuthService U S H K) (bundle : TokenBundle)
    (clock : TokenKind → Clock) (kind : TokenKind) (token : String) (now : U64) : Prop :=
  ∃ issuedAs issued, bundle.token issuedAs = token ∧ service.key kind = service.key issuedAs ∧
    clock issuedAs = .ok issued ∧
    InTime now (saturatingAdd issued (service.tokenConfig.ttlSecs issuedAs))

/-- The tokens were handed out to a user: for the password of the account, or for a refresh token
that was handed out to the same user. -/
inductive JwtAuthService.Lineage (service : JwtAuthService U S H K) (members : List (Account U))
    (log : AuthLog U S) : U → TokenBundle → (TokenKind → Clock) → Prop
  | password {call : AuthCall U S} {request : Credentials} {clock : TokenKind → Clock}
      {response : AuthResponse U} {account : Account U} :
      call.credentials? = some (request, clock) →
      (call, .response (.ok response)) ∈ log →
      account ∈ members →
      account.username = service.crates.username request →
      account.password = request.password →
      response.userId = account.id →
      Lineage service members log response.userId response.tokens clock
  | refresh {userId : U} {bundle : TokenBundle} {clock : TokenKind → Clock} {token : String}
      {now : U64} {around : Surroundings U S} {response : AuthResponse U} :
      Lineage service members log userId bundle clock →
      service.Redeems bundle clock .refresh token now →
      (.refresh token now around, .response (.ok response)) ∈ log →
      response.userId = userId →
      Lineage service members log userId response.tokens around.clock

variable {members more : List (Account U)} {log before : AuthLog U S} {userId : U}
  {bundle : TokenBundle} {clock : TokenKind → Clock}

theorem JwtAuthService.Lineage.mono (h : service.Lineage members before userId bundle clock)
    (hmembers : members ⊆ more) (hlog : before ⊆ log) :
    service.Lineage more log userId bundle clock := by
  induction h with
  | password hcall hreply haccount husername hpassword hid =>
      exact .password hcall (hlog hreply) (hmembers haccount) husername hpassword hid
  | refresh _ hredeems hreply hid ih => exact .refresh ih hredeems (hlog hreply) hid

/-- A token that is accepted is one that its user was handed out. -/
def JwtAuthService.Accepts (service : JwtAuthService U S H K) (members : List (Account U))
    (before : AuthLog U S) (entry : AuthCall U S × AuthReply U) : Prop :=
  ∀ presented ∈ entry.1.presented?, ∀ userId ∈ entry.2.user?,
    ∃ bundle clock, service.Lineage members before userId bundle clock ∧
      service.Redeems bundle clock presented.1 presented.2.1 presented.2.2

/-- An account was made by a registration with valid credentials. -/
def JwtAuthService.Registered (service : JwtAuthService U S H K) (log : AuthLog U S)
    (account : Account U) : Prop :=
  ∃ request around result, (.register request around, .response result) ∈ log ∧
    account = ⟨around.newId, service.crates.username request, request.password⟩ ∧
    validateCredentials account.username account.password = .ok ()

/-- The grants lead back to passwords, as do the tokens that have been accepted. -/
structure JwtAuthService.Traced (service : JwtAuthService U S H K) (log : AuthLog U S)
    (accounts : Accounts U) : Prop where
  registered : ∀ account ∈ accounts.members, service.Registered log account
  granted : ∀ grant ∈ accounts.grants, ∃ bundle clock issued,
    service.Lineage accounts.members log grant.userId bundle clock ∧
      bundle.token grant.kind = grant.token ∧ clock grant.kind = .ok issued ∧
      grant.exp = saturatingAdd issued (service.tokenConfig.ttlSecs grant.kind)
  accepted : EachEntry (service.Accepts accounts.members) log

theorem mem_grantsOf {response : AuthResponse U} {grant : TokenGrant U}
    (h : grant ∈ service.grantsOf clock (.ok response)) :
    ∃ issued, clock grant.kind = .ok issued ∧ response.tokens.token grant.kind = grant.token ∧
      grant.userId = response.userId ∧
      grant.exp = saturatingAdd issued (service.tokenConfig.ttlSecs grant.kind) := by
  simp only [JwtAuthService.grantsOf, List.mem_filterMap, Option.map_eq_some_iff] at h
  obtain ⟨kind, -, issued, hissued, rfl⟩ := h
  refine ⟨issued, ?_, rfl, rfl, rfl⟩
  cases hclock : clock kind with
  | error message => simp [hclock, Except.toOption] at hissued
  | ok now =>
      rw [hclock] at hissued
      exact congrArg Except.ok (Option.some.inj hissued)

theorem redeem_eq_ok [DecidableEq K] {accounts : Accounts U} {kind : TokenKind} {now : U64}
    {token : String} {context : AuthContext U}
    (h : accounts.redeem service kind now token = .ok context) :
    ∃ grant ∈ accounts.grants, grant.token = token ∧ service.key kind = service.key grant.kind ∧
      InTime now grant.exp ∧ grant.userId = context.userId := by
  unfold Accounts.redeem at h
  cases hfind : accounts.grants.find? fun grant => grant.token = token ∧
      service.key kind = service.key grant.kind ∧ InTime now grant.exp with
  | none =>
      rw [hfind] at h
      cases h
  | some grant =>
      rw [hfind] at h
      obtain rfl := Except.ok.inj h
      have hgrant := List.find?_some hfind
      obtain ⟨htoken, hkey, htime⟩ := of_decide_eq_true hgrant
      exact ⟨grant, List.mem_of_find?_eq_some hfind, htoken, hkey, htime, rfl⟩

namespace JwtAuthService.Traced

variable {accounts next : Accounts U} {entry : AuthCall U S × AuthReply U} {kind : TokenKind}
  {now : U64} {token : String}

theorem new : service.Traced ([] : AuthLog U S) Accounts.new where
  registered _ h := absurd h List.not_mem_nil
  granted _ h := absurd h List.not_mem_nil
  accepted := eachEntry_nil

theorem redeems [DecidableEq K] (h : service.Traced log accounts) {context : AuthContext U}
    (hredeem : accounts.redeem service kind now token = .ok context) :
    ∃ bundle clock, service.Lineage accounts.members log context.userId bundle clock ∧
      service.Redeems bundle clock kind token now := by
  obtain ⟨grant, hgrant, rfl, hkey, htime, huser⟩ := redeem_eq_ok hredeem
  obtain ⟨bundle, clock, issued, hlineage, htoken, hclock, hexp⟩ := h.granted grant hgrant
  exact ⟨bundle, clock, huser ▸ hlineage, grant.kind, issued, htoken, hkey, hclock, hexp ▸ htime⟩

/-- A call that keeps the accounts and grants what leads back keeps the trace. -/
theorem append (h : service.Traced log accounts) (hmembers : accounts.members ⊆ next.members)
    (hregistered : ∀ account ∈ next.members,
      account ∈ accounts.members ∨ service.Registered (log ++ [entry]) account)
    (hgranted : ∀ grant ∈ next.grants, grant ∈ accounts.grants ∨ ∃ bundle clock issued,
      service.Lineage next.members (log ++ [entry]) grant.userId bundle clock ∧
        bundle.token grant.kind = grant.token ∧ clock grant.kind = .ok issued ∧
        grant.exp = saturatingAdd issued (service.tokenConfig.ttlSecs grant.kind))
    (haccepted : service.Accepts accounts.members log entry) :
    service.Traced (log ++ [entry]) next := by
  have hlog : log ⊆ log ++ [entry] := List.subset_append_left log [entry]
  have hwider : ∀ before entry, service.Accepts accounts.members before entry →
      service.Accepts next.members before entry := by
    intro before entry haccepts presented hpresented userId huser
    obtain ⟨bundle, clock, hlineage, hredeems⟩ := haccepts presented hpresented userId huser
    exact ⟨bundle, clock, hlineage.mono hmembers (List.Subset.refl _), hredeems⟩
  constructor
  · intro account haccount
    rcases hregistered account haccount with hold | hnew
    · obtain ⟨request, around, result, hcall, heq, hvalid⟩ := h.registered account hold
      exact ⟨request, around, result, hlog hcall, heq, hvalid⟩
    · exact hnew
  · intro grant hgrant
    rcases hgranted grant hgrant with hold | hnew
    · obtain ⟨bundle, clock, issued, hlineage, hfacts⟩ := h.granted grant hold
      exact ⟨bundle, clock, issued, hlineage.mono hmembers hlog, hfacts⟩
    · exact hnew
  · refine EachEntry.append (fun before entry after heq => ?_) (hwider log entry haccepted)
    exact hwider before entry (h.accepted before entry after heq)

theorem granted_of_response {result : AppResult (AuthResponse U)}
    (hresult : ∀ response, result = .ok response →
      service.Lineage members log response.userId response.tokens clock) :
    ∀ grant ∈ service.grantsOf clock result, ∃ bundle clock issued,
      service.Lineage members log grant.userId bundle clock ∧
        bundle.token grant.kind = grant.token ∧ clock grant.kind = .ok issued ∧
        grant.exp = saturatingAdd issued (service.tokenConfig.ttlSecs grant.kind) := by
  intro grant hgrant
  cases result with
  | error error => cases hgrant
  | ok response =>
      obtain ⟨issued, hclock, htoken, huser, hexp⟩ := mem_grantsOf hgrant
      have hlineage := hresult response rfl
      exact ⟨response.tokens, clock, issued, huser ▸ hlineage, htoken, hclock, hexp⟩

theorem mem_log_append (log : AuthLog U S) {call : AuthCall U S}
    {result : AppResult (AuthResponse U)} {response : AuthResponse U}
    (h : result = .ok response) :
    (call, AuthReply.response (.ok response)) ∈ log ++ [(call, .response result)] :=
  h ▸ List.mem_append_right log List.mem_cons_self

variable [DecidableEq U] [DecidableEq K] {request : Credentials} {around : Surroundings U S}

theorem register (h : service.Traced log accounts) (request : Credentials)
    (around : Surroundings U S) : service.Traced
      (log ++ [(.register request around, (accounts.step service (.register request around)).1)])
      (accounts.step service (.register request around)).2 := by
  have hmembers : (accounts.register service request around).2.members = accounts.members ∨
      validateCredentials (service.crates.username request) request.password = .ok () ∧
        (accounts.register service request around).2.members = accounts.members ++
          [⟨around.newId, service.crates.username request, request.password⟩] :=
    members_register
  rw [Accounts.step_register]
  refine h.append ?_ ?_ ?_ ?_
  · rw [Accounts.members_grant]
    rcases hmembers with heq | ⟨-, heq⟩
    · exact fun account haccount => heq ▸ haccount
    · exact fun account haccount => heq ▸ List.mem_append_left _ haccount
  · intro account haccount
    rw [Accounts.members_grant] at haccount
    rcases hmembers with heq | ⟨hvalid, heq⟩
    · exact .inl (heq ▸ haccount)
    · rw [heq, List.mem_append, List.mem_singleton] at haccount
      refine haccount.imp_right fun hnew => ?_
      subst hnew
      exact ⟨request, around, _, List.mem_append_right log List.mem_cons_self, rfl, hvalid⟩
  · intro grant hgrant
    rcases List.mem_append.1 hgrant with hold | hnew
    · have hgrants : (accounts.register service request around).2.grants = accounts.grants :=
        grants_register
      exact .inl (hgrants ▸ hold)
    · refine .inr (granted_of_response (fun response hresponse => ?_) grant hnew)
      obtain ⟨hbuild, heq⟩ := register_eq_ok hresponse
      have hid := (buildAuthResponse_eq_ok hbuild).1
      have haccount : (⟨around.newId, service.crates.username request, request.password⟩ :
          Account U) ∈ ((accounts.register service request around).2.grant
            (service.grantsOf around.clock
              (accounts.register service request around).1)).members := by
        rw [Accounts.members_grant, heq]
        exact List.mem_append_right _ List.mem_cons_self
      exact .password rfl (mem_log_append log hresponse) haccount rfl rfl hid
  · intro presented hpresented
    cases hpresented

theorem login (h : service.Traced log accounts) (request : Credentials)
    (around : Surroundings U S) : service.Traced
      (log ++ [(.login request around, (accounts.step service (.login request around)).1)])
      (accounts.step service (.login request around)).2 := by
  refine h.append (List.Subset.refl _) (fun account haccount => .inl haccount) ?_ ?_
  · intro grant hgrant
    rcases List.mem_append.1 hgrant with hold | hnew
    · exact .inl hold
    · refine .inr (granted_of_response (fun response hresponse => ?_) grant hnew)
      obtain ⟨account, haccount, husername, hpassword, hbuild⟩ := login_eq_ok hresponse
      have hid := (buildAuthResponse_eq_ok hbuild).1
      exact .password rfl (mem_log_append log hresponse) haccount husername hpassword hid
  · intro presented hpresented
    cases hpresented

theorem refresh_redeems (h : service.Traced log accounts) {token : String} {now : U64}
    {response : AuthResponse U}
    (hresponse : accounts.refresh service token now around = .ok response) :
    ∃ bundle clock, service.Lineage accounts.members log response.userId bundle clock ∧
      service.Redeems bundle clock .refresh token now := by
  obtain ⟨account, -, hredeem, hbuild⟩ := refresh_eq_ok hresponse
  rw [(buildAuthResponse_eq_ok hbuild).1]
  exact h.redeems hredeem

theorem refresh (h : service.Traced log accounts) (token : String) (now : U64)
    (around : Surroundings U S) : service.Traced
      (log ++ [(.refresh token now around, (accounts.step service (.refresh token now around)).1)])
      (accounts.step service (.refresh token now around)).2 := by
  refine h.append (List.Subset.refl _) (fun account haccount => .inl haccount) ?_ ?_
  · intro grant hgrant
    rcases List.mem_append.1 hgrant with hold | hnew
    · exact .inl hold
    · refine .inr (granted_of_response (fun response hresponse => ?_) grant hnew)
      obtain ⟨bundle, clock, hlineage, hredeems⟩ := h.refresh_redeems hresponse
      have hlog : log ⊆ log ++ [(.refresh token now around,
          (accounts.step service (.refresh token now around)).1)] :=
        List.subset_append_left _ _
      exact .refresh (hlineage.mono (List.Subset.refl _) hlog) hredeems
        (mem_log_append log hresponse) rfl
  · intro presented hpresented userId huser
    obtain rfl := Option.some.inj hpresented
    cases hresult : accounts.refresh service token now around with
    | error error =>
        rw [Accounts.step, hresult] at huser
        cases huser
    | ok response =>
        rw [Accounts.step, hresult] at huser
        obtain rfl := Option.some.inj huser
        exact h.refresh_redeems hresult

omit [DecidableEq U] in
/-- A look at a token changes nothing. -/
theorem look (h : service.Traced log accounts) {call : AuthCall U S}
    (hcall : call.presented? = some (kind, token, now)) : service.Traced
      (log ++ [(call, .context (accounts.redeem service kind now token))]) accounts := by
  refine h.append (List.Subset.refl _) (fun account haccount => .inl haccount)
    (fun grant hgrant => .inl hgrant) ?_
  intro presented hpresented userId huser
  rw [hcall] at hpresented
  obtain rfl := Option.some.inj hpresented
  cases hresult : accounts.redeem service kind now token with
  | error error =>
      rw [hresult] at huser
      cases huser
  | ok context =>
      rw [hresult] at huser
      obtain rfl := Option.some.inj huser
      exact h.redeems hresult

theorem step (h : service.Traced log accounts) (call : AuthCall U S) :
    service.Traced (log ++ [(call, (accounts.step service call).1)])
      (accounts.step service call).2 := by
  cases call with
  | register request around => exact h.register request around
  | login request around => exact h.login request around
  | refresh token now around => exact h.refresh token now around
  | verifyAccessToken token now => exact h.look rfl
  | verifyNotificationToken token now => exact h.look rfl

end JwtAuthService.Traced

def JwtAuthService.membersAfter [DecidableEq U] [DecidableEq K]
    (service : JwtAuthService U S H K) (calls : List (AuthCall U S)) : List (Account U) :=
  (runCalls (Accounts.step service) Accounts.new calls).2.members

/-- In a run without forged tokens whose passwords are told apart by their hashes, every token that
the service accepts was handed out to the user it is accepted for, in time, and leads back to the
password of the account of the user, which was registered; no other account has its id or its
username. -/
theorem accepted_lineage [DecidableEq U] [DecidableEq K] (hlawful : service.crates.Lawful)
    {calls : List (AuthCall U S)} (hseparates : service.crates.Separates calls)
    (hunforged : EachCall (observed service.step service.handOut) service.Unforged
      (UsersTable.empty, []) calls) :
    ((service.membersAfter calls).map (·.id)).Nodup ∧
      ((service.membersAfter calls).map (·.username)).Nodup ∧
      (∀ account ∈ service.membersAfter calls,
        service.Registered (runCalls service.step UsersTable.empty calls).1 account) ∧
      EachEntry (service.Accepts (service.membersAfter calls))
        (runCalls service.step UsersTable.empty calls).1 := by
  obtain ⟨hreplies, hlast⟩ := runCalls_simulation (service.Represents calls)
    (fun s call => service.Unforged s call ∧ call ∈ calls)
    (fun s accounts call hcall h => h.step hlawful hseparates hcall.1 hcall.2)
    JwtAuthService.Represents.new hunforged.mem
  have htraced : service.Traced (runCalls (Accounts.step service) Accounts.new calls).1
      (runCalls (Accounts.step service) Accounts.new calls).2 :=
    runCalls_invariant (Accounts.step service) (fun log accounts => service.Traced log accounts)
      (fun _ _ => True) (fun log accounts call _ h => h.step call) JwtAuthService.Traced.new
      (eachCall_of_forall (fun _ _ => trivial) _ _)
  have hlog : (runCalls service.step UsersTable.empty calls).1 =
      (runCalls (Accounts.step service) Accounts.new calls).1 :=
    (runCalls_observed service.step service.handOut (UsersTable.empty, []) calls).1.symm.trans
      hreplies
  have hids := map_id_of_rows hlast.rows
  have husernames := map_username_of_rows hlast.rows
  rw [hlog]
  exact ⟨hids ▸ UsersTable.ids _, husernames ▸ UsersTable.usernames _, htraced.registered,
    htraced.accepted⟩

theorem accepted_lineage_plain : ((plainService.membersAfter plainCalls).map (·.id)).Nodup ∧
    ((plainService.membersAfter plainCalls).map (·.username)).Nodup ∧
    (∀ account ∈ plainService.membersAfter plainCalls,
      plainService.Registered (runCalls plainService.step UsersTable.empty plainCalls).1 account) ∧
    EachEntry (plainService.Accepts (plainService.membersAfter plainCalls))
      (runCalls plainService.step UsersTable.empty plainCalls).1 :=
  accepted_lineage lawful_plainCrates separates_plainCalls unforged_plainCalls

end Lineage

end Evobase
