import Evobase.Runtime.Page

/-!
# Sessions of the Runtime page

Of the page, the attempt, the busy mark and the generation decide which requests are sent and what
becomes of an attempt. Every event of the page does one of six things to them (`Acts`), and every
task that goes on does one of seven (`Resumes`).

The two case lists are the only things that later modules know of the handlers: neither the lists
of the page nor its notices decide a request. The generation goes round at the end of its range,
which is why a run is bounded by it.
-/

namespace Evobase.Runtime

open Foundation

structure Session where
  attempt : Option Attempt
  busy : Bool
  generation : U64

def State.session (state : State) : Session := ⟨state.attempt, state.busy, state.generation⟩

def Attempt.doubted (attempt : Attempt) : Attempt := { attempt with uncertain := true }

def Session.invalidate (s : Session) : Session :=
  ⟨s.attempt.map Attempt.doubted, false, State.nextGeneration s.generation⟩

def Attempt.Encoded (attempt : Attempt) : Prop :=
  ∃ bytes, Wire.encode attempt.request = .ok bytes ∧ Json.stringOfBytes bytes = some attempt.body

/-- The task reads what the page shows. -/
def Task.Loads : Task → Prop
  | .loadTable _ _ _ => True
  | .loadApplication _ _ => True
  | .dispatch _ _ _ _ => False

/-- What an event does to a session, and the task that it starts. -/
inductive Acts (s : Session) : Event → Session → Option Task → Prop
  | rests {event} : Acts s event s none
  | disconnects {event} : Acts s event s.invalidate none
  | connects {event} (config : Config) :
      Acts s event { s.invalidate with busy := true }
        (some (.loadApplication config s.invalidate.generation))
  | loads {event task} (hidle : s.busy = false) (hloads : task.Loads)
      (hgeneration : task.generation = s.generation) :
      Acts s event { s with busy := true } (some task)
  | submits {attempt key} (credential : String) (hidle : s.busy = false) (hnone : s.attempt = none)
      (hcertain : attempt.uncertain = false) (hkey : attempt.request.requestKey = key)
      (hencoded : attempt.Encoded) :
      Acts s (.submit (some key)) { s with attempt := some attempt, busy := true }
        (some (.dispatch attempt credential false s.generation))
  | sends {event attempt} (credential : String) (recover : Bool) (hidle : s.busy = false)
      (hattempt : s.attempt = some attempt) :
      Acts s event { s with busy := true } (some (.dispatch attempt credential recover s.generation))

/-- What a reply does to a session through the task that waits for it, and the task that waits
next. -/
inductive Resumes (tokenizer : JsonTokenizer) (s : Session) (reply : Option HttpReply) :
    Task → Session → Option Task → Prop
  | stale {task} (hstale : task.generation ≠ s.generation) : Resumes tokenizer s reply task s none
  | ends {task} (busy : Bool) (hloads : task.Loads)
      (hbusy : busy = s.busy ∨ task.generation = s.generation) :
      Resumes tokenizer s reply task { s with busy } none
  | continues {task next} (hloads : task.Loads) (hnext : next.Loads)
      (hlive : task.generation = s.generation) (hgeneration : next.generation = s.generation) :
      Resumes tokenizer s reply task s (some next)
  | receives {attempt credential recover receipt} (config : Config)
      (hreply : readReply tokenizer ReceiptResponseDto reply = .ok receipt)
      (hmatches : receiptMatches receipt attempt) :
      Resumes tokenizer s reply (.dispatch attempt credential recover s.generation)
        { s with attempt := none } (some (.loadApplication config s.generation))
  | doubts {attempt credential recover} :
      Resumes tokenizer s reply (.dispatch attempt credential recover s.generation)
        { s with attempt := some attempt.doubted, busy := false } none
  | refuses {attempt credential code} (hcertain : attempt.uncertain = false)
      (hreply : request tokenizer reply = .error (.api code)) (hcode : code ≠ .internal) :
      Resumes tokenizer s reply (.dispatch attempt credential false s.generation)
        { s with attempt := none, busy := false } none
  | retains {attempt credential recover} (hretained : recover = true ∨ attempt.uncertain = true) :
      Resumes tokenizer s reply (.dispatch attempt credential recover s.generation)
        { s with busy := false } none

section Page

variable {tokenizer : JsonTokenizer} {validBase : String → Bool} {page next : Page} {state : State}
  {task : Option Task} {event : Event}

@[simp] theorem session_selectRecord (record : String) :
    (state.selectRecord record).session = state.session := by
  unfold State.selectRecord
  split_ifs <;> rfl

@[simp] theorem session_showFailure (error : Failure) :
    (state.showFailure error).session = { state.session with busy := false } := by
  unfold State.showFailure
  dsimp only
  split_ifs <;> rfl

@[simp] theorem session_invalidate : state.invalidate.session = state.session.invalidate := by
  unfold State.invalidate Session.invalidate State.session
  cases state.attempt <;> rfl

theorem session_forget : page.forget.state.session = page.state.session.invalidate :=
  session_invalidate

theorem encoded_of_attemptFor {config : Config} {metadata : MetadataResponseDto}
    {list : ListResponseDto} {command : CommandMetadataDto} {record : RecordId} {params : ValuesDto}
    {key : String} {attempt : Attempt}
    (h : Page.attemptFor config metadata list command record params key = .ok attempt) :
    attempt.uncertain = false ∧ attempt.request.requestKey = key ∧ attempt.Encoded := by
  simp only [Page.attemptFor, bind_eq_ok, renameError_eq_ok, okOr_eq_ok, Except.ok.injEq] at h
  obtain ⟨bytes, hencode, body, hbody, rfl⟩ := h
  exact ⟨rfl, rfl, bytes, hencode, hbody⟩

theorem acts_send {attempt : Attempt} (recover : Bool) (hidle : page.state.busy = false)
    (hattempt : page.state.attempt = some attempt)
    (h : page.send attempt recover = (next, task)) :
    Acts page.state.session event next.state.session task := by
  rw [Page.send, if_neg (by simp [hidle])] at h
  obtain ⟨rfl, rfl⟩ := Prod.mk.inj h
  exact .sends page.credential recover hidle hattempt

theorem acts_connect (h : page.connect validBase = (next, task)) :
    Acts page.state.session event next.state.session task := by
  unfold Page.connect at h
  split at h
  · obtain ⟨rfl, rfl⟩ := Prod.mk.inj h
    exact .rests
  · rename_i config hconfig
    split_ifs at h
    · obtain ⟨rfl, rfl⟩ := Prod.mk.inj h
      exact .rests
    · obtain ⟨rfl, rfl⟩ := Prod.mk.inj h
      have hsession : page.state.invalidate.session = page.state.session.invalidate :=
        session_invalidate
      have hconnects : Acts page.state.session event { page.state.session.invalidate with busy := true }
          (some (.loadApplication config page.state.session.invalidate.generation)) :=
        .connects config
      rw [← hsession] at hconnects
      exact hconnects

theorem acts_refresh (hidle : page.state.busy = false)
    (h : page.refresh validBase = (next, task)) :
    Acts page.state.session event next.state.session task := by
  unfold Page.refresh at h
  split at h
  · obtain ⟨rfl, rfl⟩ := Prod.mk.inj h
    exact .rests
  · obtain ⟨rfl, rfl⟩ := Prod.mk.inj h
    exact .loads hidle trivial rfl

theorem acts_selectTable {value : String} (hidle : page.state.busy = false)
    (h : page.selectTable validBase value = (next, task)) :
    Acts page.state.session event next.state.session task := by
  unfold Page.selectTable at h
  dsimp only at h
  split at h
  · obtain ⟨rfl, rfl⟩ := Prod.mk.inj h
    exact .loads hidle trivial rfl
  · obtain ⟨rfl, rfl⟩ := Prod.mk.inj h
    exact .rests

theorem acts_submit {key : Option String} (hidle : page.state.busy = false)
    (hnone : page.state.attempt = none) (h : page.submit validBase key = (next, task)) :
    Acts page.state.session (.submit key) next.state.session task := by
  unfold Page.submit at h
  split at h
  · split at h
    · dsimp only at h
      split at h
      · obtain ⟨rfl, rfl⟩ := Prod.mk.inj h
        exact .rests
      · split at h
        · obtain ⟨rfl, rfl⟩ := Prod.mk.inj h
          exact .rests
        · split at h
          · obtain ⟨rfl, rfl⟩ := Prod.mk.inj h
            exact .rests
          · rename_i attempt hattempt
            obtain ⟨hcertain, hkey, hencoded⟩ := encoded_of_attemptFor hattempt
            rw [Page.send, if_neg (by simp [Page.withState, hidle])] at h
            obtain ⟨rfl, rfl⟩ := Prod.mk.inj h
            exact .submits page.credential hidle hnone hcertain hkey hencoded
    · obtain ⟨rfl, rfl⟩ := Prod.mk.inj h
      exact .rests
  · obtain ⟨rfl, rfl⟩ := Prod.mk.inj h
    exact .rests

theorem not_locked_iff : ¬ page.locked = true ↔
    page.state.busy = false ∧ page.state.attempt = none := by
  simp [Page.locked]

/-- Every event of the page acts on its session. -/
theorem acts_handle (h : page.handle validBase event = some (next, task)) :
    Acts page.state.session event next.state.session task := by
  have hpair : ∀ {out : Page × Option Task}, some out = some (next, task) → out = (next, task) :=
    fun h => Option.some.inj h
  cases event with
  | base value =>
      rw [Page.handle] at h
      split_ifs at h
      obtain ⟨rfl, rfl⟩ := Prod.mk.inj (hpair h)
      rw [session_forget]
      exact .disconnects
  | app value =>
      rw [Page.handle] at h
      split_ifs at h
      obtain ⟨rfl, rfl⟩ := Prod.mk.inj (hpair h)
      rw [session_forget]
      exact .disconnects
  | credential value =>
      obtain ⟨rfl, rfl⟩ := Prod.mk.inj (hpair h)
      rw [Page.withState, session_invalidate]
      exact .disconnects
  | disconnect =>
      obtain ⟨rfl, rfl⟩ := Prod.mk.inj (hpair h)
      rw [Page.withState, session_invalidate]
      exact .disconnects
  | connect =>
      rw [Page.handle] at h
      split_ifs at h
      exact acts_connect (hpair h)
  | refresh =>
      rw [Page.handle] at h
      split_ifs at h with hlocked
      exact acts_refresh (not_locked_iff.1 (not_or.1 hlocked).1).1 (hpair h)
  | table value =>
      rw [Page.handle] at h
      split_ifs at h with hlocked
      exact acts_selectTable (not_locked_iff.1 (not_or.1 hlocked).1).1 (hpair h)
  | record value =>
      rw [Page.handle] at h
      split_ifs at h
      obtain ⟨rfl, rfl⟩ := Prod.mk.inj (hpair h)
      rw [Page.withState, session_selectRecord]
      exact .rests
  | command value =>
      rw [Page.handle] at h
      split_ifs at h
      obtain ⟨rfl, rfl⟩ := Prod.mk.inj (hpair h)
      exact .rests
  | param field value =>
      rw [Page.handle] at h
      split_ifs at h
      obtain ⟨rfl, rfl⟩ := Prod.mk.inj (hpair h)
      exact .rests
  | submit key =>
      rw [Page.handle] at h
      split_ifs at h with hlocked
      obtain ⟨hidle, hnone⟩ := not_locked_iff.1 (not_or.1 hlocked).1
      exact acts_submit hidle hnone (hpair h)
  | recover =>
      obtain ⟨attempt, hattempt, hsend⟩ := Option.bind_eq_some_iff.1 h
      split_ifs at hsend with hbusy
      exact acts_send true (by simpa using hbusy) hattempt (hpair hsend)
  | retry =>
      obtain ⟨attempt, hattempt, hsend⟩ := Option.bind_eq_some_iff.1 h
      split_ifs at hsend with hbusy
      exact acts_send false (by simpa using hbusy) hattempt (hpair hsend)

variable {reply : Option HttpReply}

theorem session_loadTable (config : Config) (table : TableId) (generation : U64) :
    ∃ busy, (loadTable tokenizer state config table generation reply).session =
      { state.session with busy } ∧ (busy = state.busy ∨ generation = state.generation) := by
  unfold loadTable
  split
  · exact ⟨state.busy, rfl, .inl rfl⟩
  · rename_i hlive
    refine ⟨false, ?_, .inr (not_not.1 (not_or.1 hlive).1).symm⟩
    dsimp only
    split
    · split_ifs
      · rfl
      · exact congrArg (fun s : Session => { s with busy := false }) (session_selectRecord _)
      · rfl
    · exact congrArg (fun s : Session => { s with busy := false }) (session_showFailure _)

theorem resumes_loadApplication (config : Config) (generation : U64) :
    Resumes tokenizer state.session reply (.loadApplication config generation)
      (loadApplication tokenizer state config generation reply).1.session
      (loadApplication tokenizer state config generation reply).2 := by
  unfold loadApplication
  split
  · rename_i hstale
    exact .stale (Ne.symm hstale)
  · rename_i hlive
    split
    · split
      · dsimp only
        split
        · exact .continues trivial trivial (not_not.1 hlive).symm (not_not.1 hlive).symm
        · exact .ends false trivial (.inr (not_not.1 hlive).symm)
      · exact .ends false trivial (.inr (not_not.1 hlive).symm)
    · rw [session_showFailure]
      exact .ends false trivial (.inr (not_not.1 hlive).symm)

theorem request_ne_configuration : request tokenizer reply ≠ .error .configuration := by
  intro h
  rw [request, bind_eq_error] at h
  rcases h with h | ⟨answer, -, h⟩
  · cases (okOr_eq_error.1 h).2
  · split_ifs at h
    rw [bind_eq_error] at h
    rcases h with h | ⟨error, -, h⟩
    · obtain ⟨e, -, h⟩ := renameError_eq_error.1 h
      cases h
    · cases h

theorem resumes_dispatch (attempt : Attempt) (credential : String) (recover : Bool)
    (generation : U64) :
    Resumes tokenizer state.session reply (.dispatch attempt credential recover generation)
      (dispatch tokenizer state attempt credential recover generation reply).1.session
      (dispatch tokenizer state attempt credential recover generation reply).2 := by
  unfold dispatch
  split
  · rename_i hstale
    exact .stale (Ne.symm hstale)
  · rename_i hlive
    obtain rfl : state.session.generation = generation := not_not.1 hlive
    split
    · rename_i raw hraw
      split
      · rename_i receipt hreceipt
        unfold finishReceipt
        split
        · rename_i hmatches
          refine .receives _ ?_ hmatches
          rw [readReply, hraw, ok_bind, hreceipt]
          rfl
        · exact .doubts
      · exact .doubts
    · rename_i error herror
      split
      · rename_i hfound
        exact .retains (.inl hfound.2)
      · rename_i hfound
        split
        · exact .doubts
        · rename_i hknown
          rw [session_showFailure]
          split
          · rename_i hretained
            exact .retains hretained
          · rename_i hcertain
            obtain ⟨hrecover, hcertain⟩ := not_or.1 hcertain
            obtain rfl : recover = false := by simpa using hrecover
            obtain ⟨htransport, hprotocol, hinternal⟩ :
                error ≠ .transport ∧ error ≠ .protocol ∧ error ≠ .api .internal := by simpa using hknown
            cases error with
            | configuration => exact absurd herror request_ne_configuration
            | transport => exact absurd rfl htransport
            | protocol => exact absurd rfl hprotocol
            | api code =>
                exact .refuses (by simpa using hcertain) herror fun hcode => hinternal (by rw [hcode])

theorem resumes_resume (waiting : Task) :
    Resumes tokenizer state.session reply waiting (resume tokenizer state reply waiting).1.session
      (resume tokenizer state reply waiting).2 := by
  cases waiting with
  | loadTable config table generation =>
      obtain ⟨busy, hsession, hbusy⟩ := session_loadTable config table generation
      rw [resume, hsession]
      exact .ends busy trivial hbusy
  | loadApplication config generation => exact resumes_loadApplication config generation
  | dispatch attempt credential recover generation =>
      exact resumes_dispatch attempt credential recover generation

end Page

end Evobase.Runtime
