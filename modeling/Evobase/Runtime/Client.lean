import Evobase.Runtime.History

/-!
# The page as a client

A client is the page with the tasks that wait for replies and the history. Events of the page and
replies keep what is known of it (`SessionFacts`): one task of the session waits at most, the page
keeps the open attempt, and an attempt that is not uncertain has been posted once.

The lemmas about a reply are one for each of the seven ways in which a task goes on.
`SessionFacts` is about the page alone; what the servers have done is in the facts of the network.
-/

namespace Evobase.Runtime

open Foundation

/-- The tasks that wait for their replies, by the numbers of their requests, how many requests have
been sent, and the history. -/
structure Desk where
  tasks : Nat → Option Task
  sent : Nat
  history : List Note

structure Client where
  page : Page
  desk : Desk

def Task.posts (n : Nat) : Task → List Note
  | .dispatch attempt _ false _ => [.posted n attempt.intent]
  | _ => []

namespace Desk

def start : Desk := ⟨fun _ => none, 0, []⟩

def note (desk : Desk) (notes : List Note) : Desk :=
  { desk with history := desk.history ++ notes }

/-- The request of a task is sent. -/
def await (desk : Desk) : Option Task → Desk
  | none => desk
  | some task => {
      tasks := Function.update desk.tasks desk.sent (some task)
      sent := desk.sent + 1
      history := desk.history ++ task.posts desk.sent }

def remove (desk : Desk) (n : Nat) : Desk :=
  { desk with tasks := Function.update desk.tasks n none }

end Desk

def submissions : Option Attempt → Option Attempt → List Note
  | none, some attempt => [.submitted attempt.intent]
  | _, _ => []

/-- The note of the end of an attempt. -/
def outcomes (tokenizer : JsonTokenizer) (reply : Option HttpReply) :
    Option Attempt → Option Attempt → List Note
  | some attempt, none =>
      match readReply tokenizer ReceiptResponseDto reply with
      | .ok receipt => [.received attempt.intent receipt]
      | .error (.api code) => [.refused attempt.intent code]
      | .error _ => []
  | _, _ => []

namespace Client

def start (page : Page) : Client := ⟨page, .start⟩

/-- An event of the page. -/
def act (validBase : String → Bool) (client : Client) (event : Event) : Option Client := do
  let (page, task) ← client.page.handle validBase event
  let notes := submissions client.page.state.attempt page.state.attempt
  some ⟨page, (client.desk.note notes).await task⟩

/-- The reply to a request is there, or there will be none: its task goes on. -/
def answer (tokenizer : JsonTokenizer) (client : Client) (n : Nat) (reply : Option HttpReply) :
    Option Client := do
  let task ← client.desk.tasks n
  let (state, next) := resume tokenizer client.page.state reply task
  let notes := outcomes tokenizer reply client.page.state.attempt state.attempt
  some ⟨client.page.withState state, ((client.desk.remove n).note notes).await next⟩

end Client

/-- What a running task knows of the attempt. A request for an attempt that is not uncertain is the
only one that has been posted for it. -/
def TaskFacts (s : Session) (history : List Note) (n : Nat) : Task → Prop
  | .dispatch attempt _ recover _ => s.attempt = some attempt ∧
      (recover = false → .posted n attempt.intent ∈ history) ∧
      (attempt.uncertain = false → recover = false ∧ postsOf attempt.intent history = [n])
  | _ => ∀ attempt, s.attempt = some attempt → attempt.uncertain = true

def Idle (s : Session) (desk : Desk) : Prop :=
  ∀ n task, desk.tasks n = some task → task.generation ≠ s.generation

/-- No task of the generation waits, or one. -/
inductive Phase (s : Session) (desk : Desk) : Prop
  | idle (hidle : Idle s desk)
      (hdoubted : ∀ attempt, s.attempt = some attempt → attempt.uncertain = true)
  | running (n : Nat) (task : Task) (htask : desk.tasks n = some task)
      (hlive : task.generation = s.generation)
      (honly : ∀ m other, desk.tasks m = some other → other.generation = s.generation → m = n)
      (hbusy : s.busy = true) (hfacts : TaskFacts s desk.history n task)

/-- What holds whether or not a task of the session waits. -/
structure DeskFacts (k : Nat) (s : Session) (desk : Desk) : Prop where
  bounded : s.generation.val ≤ k
  numbered : ∀ n task, desk.tasks n = some task → n < desk.sent
  older : ∀ n task, desk.tasks n = some task → task.generation.val ≤ s.generation.val
  posted : ∀ n attempt, .posted n attempt ∈ desk.history → n < desk.sent
  dispatched : ∀ n attempt credential recover generation,
    desk.tasks n = some (.dispatch attempt credential recover generation) →
      .submitted attempt.intent ∈ desk.history
  opened : s.attempt.map Attempt.intent = openAttempt desk.history
  entries : EachEntry NoteFacts desk.history

structure SessionFacts (k : Nat) (s : Session) (desk : Desk) : Prop extends DeskFacts k s desk where
  phase : Phase s desk

section Facts

variable {k n : Nat} {s : Session} {desk : Desk} {task next : Task} {attempt : Attempt}

theorem SessionFacts.mono (h : SessionFacts k s desk) : SessionFacts (k + 1) s desk :=
  { h with bounded := by have := h.bounded; push_cast; omega }

theorem nextGeneration_val {generation : U64} (h : generation.val + 1 < 2 ^ 64) :
    (State.nextGeneration generation).val = generation.val + 1 := by
  have hlower : 0 ≤ generation.val := generation.lower
  have hadd : generation.checkedAdd U64.one = some ⟨generation.val + 1, by omega, by omega⟩ := by
    rw [Bounded.checkedAdd_eq_some, U64.one_val]
  rw [State.nextGeneration, hadd, Option.getD_some]

/-- The end of a connection leaves no running task and no attempt that is not uncertain. -/
theorem SessionFacts.invalidate (h : SessionFacts k s desk) (hk : k + 1 < 2 ^ 64) :
    SessionFacts (k + 1) s.invalidate desk ∧ Idle s.invalidate desk := by
  have hbounded := h.bounded
  have hnext : s.invalidate.generation.val = s.generation.val + 1 :=
    nextGeneration_val (by omega)
  have hidle : Idle s.invalidate desk := by
    intro n task htask heq
    have holder := h.older n task htask
    rw [heq, hnext] at holder
    omega
  refine ⟨?_, hidle⟩
  exact {
    bounded := by rw [hnext]; push_cast; omega
    numbered := h.numbered
    older := fun n task htask => (h.older n task htask).trans (by rw [hnext]; omega)
    posted := h.posted
    dispatched := h.dispatched
    opened := by
      rw [← h.opened, Session.invalidate, Option.map_map]
      rfl
    entries := h.entries
    phase := .idle hidle fun attempt hattempt => by
      obtain ⟨before, -, rfl⟩ := Option.map_eq_some_iff.1 hattempt
      rfl }

theorem SessionFacts.idle (h : SessionFacts k s desk) (hbusy : s.busy = false) :
    Idle s desk ∧ ∀ attempt, s.attempt = some attempt → attempt.uncertain = true := by
  cases h.phase with
  | idle hidle hdoubted => exact ⟨hidle, hdoubted⟩
  | running n task htask hlive honly hrunning hfacts => rw [hbusy] at hrunning; cases hrunning

theorem SessionFacts.running (h : SessionFacts k s desk) (htask : desk.tasks n = some task)
    (hlive : task.generation = s.generation) :
    TaskFacts s desk.history n task ∧ s.busy = true ∧ Idle s (desk.remove n) := by
  cases h.phase with
  | idle hidle hdoubted => exact absurd hlive (hidle n task htask)
  | running m other hother hrunning honly hbusy hfacts =>
      obtain rfl := honly n task htask hlive
      obtain rfl := Option.some.inj (htask.symm.trans hother)
      refine ⟨hfacts, hbusy, fun i waiting hwaiting heq => ?_⟩
      by_cases hi : i = n
      · subst hi
        simp [Desk.remove] at hwaiting
      · exact hi (honly i waiting (by simpa [Desk.remove, hi] using hwaiting) heq)

theorem Task.posts_eq (n : Nat) (task : Task) :
    task.posts n = [] ∨ ∃ attempt, task.posts n = [.posted n attempt] := by
  cases task with
  | loadTable config table generation => exact .inl rfl
  | loadApplication config generation => exact .inl rfl
  | dispatch attempt credential recover generation =>
      cases recover with
      | false => exact .inr ⟨_, rfl⟩
      | true => exact .inl rfl

/-- A task is started while none of the session waits. -/
theorem DeskFacts.await (h : DeskFacts k s desk) (hidle : Idle s desk) (hbusy : s.busy = true)
    (hgeneration : task.generation = s.generation)
    (hposts : ∀ note ∈ task.posts desk.sent, NoteFacts desk.history note)
    (hfacts : TaskFacts s (desk.history ++ task.posts desk.sent) desk.sent task) :
    SessionFacts k s (desk.await (some task)) := by
  have hwaits : ∀ n waiting, (desk.await (some task)).tasks n = some waiting →
      n = desk.sent ∧ waiting = task ∨ desk.tasks n = some waiting := by
    intro n waiting hwaiting
    by_cases hn : n = desk.sent
    · subst hn
      exact .inl ⟨rfl, by simpa [Desk.await] using hwaiting.symm⟩
    · exact .inr (by simpa [Desk.await, hn] using hwaiting)
  have hfirst : (desk.await (some task)).tasks desk.sent = some task := by simp [Desk.await]
  refine ⟨⟨h.bounded, fun n waiting hwaiting => ?_, fun n waiting hwaiting => ?_,
    fun n attempt hposted => ?_, fun n attempt credential recover generation hwaiting => ?_, ?_, ?_⟩,
    .running desk.sent task hfirst hgeneration ?_ hbusy hfacts⟩
  · rcases hwaits n waiting hwaiting with ⟨rfl, -⟩ | hold
    · exact Nat.lt_succ_self _
    · exact (h.numbered n waiting hold).trans (Nat.lt_succ_self _)
  · rcases hwaits n waiting hwaiting with ⟨-, rfl⟩ | hold
    · rw [hgeneration]
    · exact h.older n waiting hold
  · rcases List.mem_append.1 hposted with hold | hnew
    · exact (h.posted n attempt hold).trans (Nat.lt_succ_self _)
    · rcases Task.posts_eq desk.sent task with hnone | ⟨other, hone⟩
      · rw [hnone] at hnew
        cases hnew
      · rw [hone, List.mem_singleton] at hnew
        cases hnew
        exact Nat.lt_succ_self _
  · refine List.mem_append_left _ ?_
    rcases hwaits n _ hwaiting with ⟨-, rfl⟩ | hold
    · refine submitted_of_openAttempt ?_
      rw [← h.opened, hfacts.1]
      rfl
    · exact h.dispatched n attempt credential recover generation hold
  · rcases Task.posts_eq desk.sent task with hnone | ⟨other, hone⟩
    · rw [Desk.await, hnone, List.append_nil]
      exact h.opened
    · rw [Desk.await, hone, openAttempt_append_posted]
      exact h.opened
  · rcases Task.posts_eq desk.sent task with hnone | ⟨other, hone⟩
    · rw [Desk.await, hnone, List.append_nil]
      exact h.entries
    · rw [Desk.await, hone]
      exact h.entries.append (hposts _ (by rw [hone]; exact List.mem_cons_self))
  · intro m other hother hlive
    rcases hwaits m other hother with ⟨hm, -⟩ | hold
    · exact hm
    · exact absurd hlive (hidle m other hold)

theorem DeskFacts.load (h : DeskFacts k s desk) (hidle : Idle s desk) (hbusy : s.busy = true)
    (hdoubted : ∀ attempt, s.attempt = some attempt → attempt.uncertain = true)
    (hloads : task.Loads) (hgeneration : task.generation = s.generation) :
    SessionFacts k s (desk.await (some task)) := by
  cases task with
  | loadTable config table generation =>
      exact h.await hidle hbusy hgeneration (fun note hnote => by cases hnote) hdoubted
  | loadApplication config generation =>
      exact h.await hidle hbusy hgeneration (fun note hnote => by cases hnote) hdoubted
  | dispatch attempt credential recover generation => exact hloads.elim

/-- A request for the attempt of the session is sent while no task of the session waits. -/
theorem DeskFacts.dispatch (h : DeskFacts k s desk) (hidle : Idle s desk) (hbusy : s.busy = true)
    (hattempt : s.attempt = some attempt) (credential : String) {recover : Bool}
    (hcertain : attempt.uncertain = false →
      recover = false ∧ postsOf attempt.intent desk.history = []) :
    SessionFacts k s (desk.await (some (.dispatch attempt credential recover s.generation))) := by
  have hopen : openAttempt desk.history = some attempt.intent := by
    rw [← h.opened, hattempt]
    rfl
  refine h.await hidle hbusy rfl ?_ ?_
  · intro note hnote
    cases recover with
    | true => cases hnote
    | false =>
        obtain rfl := List.mem_singleton.1 hnote
        exact hopen
  · refine ⟨hattempt, ?_, ?_⟩
    · rintro rfl
      exact List.mem_append_right _ List.mem_cons_self
    · intro hfirst
      obtain ⟨rfl, hposts⟩ := hcertain hfirst
      exact ⟨rfl, by rw [Task.posts, postsOf_append_posted, hposts, List.nil_append]⟩

/-- A note that says which attempt is open after it. -/
theorem DeskFacts.note (h : DeskFacts k s desk) {note : Note} {left : Option Attempt}
    (hfacts : NoteFacts desk.history note) (hopens : note.opens = some (left.map Attempt.intent))
    (busy : Bool) : DeskFacts k ⟨left, busy, s.generation⟩ (desk.note [note]) where
  bounded := h.bounded
  numbered := h.numbered
  older := h.older
  posted := by
    rintro n other hposted
    rcases List.mem_append.1 hposted with hold | hnew
    · exact h.posted n other hold
    · obtain rfl := List.mem_singleton.1 hnew
      cases hopens
  dispatched := fun n attempt credential recover generation hwaiting =>
    List.mem_append_left _ (h.dispatched n attempt credential recover generation hwaiting)
  opened := by
    rw [Desk.note, openAttempt_append_singleton, hopens]
    rfl
  entries := h.entries.append hfacts

/-- An attempt is submitted while none is open. -/
theorem SessionFacts.submit (h : SessionFacts k s desk) (hidle : s.busy = false)
    (hnone : s.attempt = none) (hcertain : attempt.uncertain = false) (hencoded : attempt.Encoded)
    (hfresh : ∀ other, .submitted other ∈ desk.history →
      other.request.requestKey ≠ attempt.request.requestKey) (credential : String) :
    SessionFacts k { s with attempt := some attempt, busy := true }
      ((desk.note [.submitted attempt]).await
        (some (.dispatch attempt credential false s.generation))) := by
  have hintent : attempt.intent = attempt := Attempt.intent_eq hcertain
  have hopen : openAttempt desk.history = none := by rw [← h.opened, hnone, Option.map_none]
  have hunposted : postsOf attempt desk.history = [] := by
    refine List.eq_nil_iff_forall_not_mem.2 fun n hn => ?_
    exact hfresh attempt (submitted_of_posted h.entries (mem_postsOf.1 hn)) rfl
  have hfacts : NoteFacts desk.history (.submitted attempt) := ⟨hopen, hencoded, hfresh⟩
  have hnoted : DeskFacts k ⟨some attempt, true, s.generation⟩ (desk.note [.submitted attempt]) :=
    h.toDeskFacts.note hfacts (by rw [Option.map_some, hintent]; rfl) true
  refine hnoted.dispatch (h.idle hidle).1 rfl rfl credential fun _ => ⟨rfl, ?_⟩
  rw [hintent, Desk.note, postsOf, List.filterMap_append]
  exact (List.append_nil _).trans hunposted

theorem DeskFacts.withBusy (h : DeskFacts k s desk) (busy : Bool) :
    DeskFacts k { s with busy } desk := { h with }

theorem submissions_self (attempt : Option Attempt) : submissions attempt attempt = [] := by
  cases attempt <;> rfl

theorem submissions_invalidate : submissions s.attempt s.invalidate.attempt = [] := by
  rw [Session.invalidate]
  cases s.attempt <;> rfl

theorem note_nil : desk.note [] = desk := by rw [Desk.note, List.append_nil]

/-- Every event of the page keeps the facts, when a submission draws a key of its own. -/
theorem SessionFacts.acts (h : SessionFacts k s desk) (hk : k + 1 < 2 ^ 64) {event : Event}
    {s' : Session} {started : Option Task} (hacts : Acts s event s' started)
    (hfresh : ∀ key, event = .submit (some key) → ∀ other, .submitted other ∈ desk.history →
      other.request.requestKey ≠ key) :
    SessionFacts (k + 1) s' ((desk.note (submissions s.attempt s'.attempt)).await started) := by
  cases hacts with
  | rests =>
      rw [submissions_self, note_nil]
      exact h.mono
  | disconnects =>
      rw [submissions_invalidate, note_nil]
      exact (h.invalidate hk).1
  | connects config =>
      obtain ⟨hfacts, hidle⟩ := h.invalidate hk
      rw [submissions_invalidate, note_nil]
      exact (hfacts.toDeskFacts.withBusy true).load hidle rfl (hfacts.idle rfl).2 trivial rfl
  | loads hidle hloads hgeneration =>
      obtain ⟨hwaits, hdoubted⟩ := h.idle hidle
      rw [submissions_self, note_nil]
      exact (h.mono.toDeskFacts.withBusy true).load hwaits rfl hdoubted hloads hgeneration
  | submits credential hidle hnone hcertain hkey hencoded =>
      rename_i attempt key
      rw [hnone, submissions, Attempt.intent_eq hcertain]
      refine h.mono.submit hidle hnone hcertain hencoded ?_ credential
      rintro other hother
      rw [hkey]
      exact hfresh key rfl other hother
  | sends credential recover hidle hattempt =>
      rename_i attempt
      obtain ⟨hwaits, hdoubted⟩ := h.idle hidle
      rw [submissions_self, note_nil]
      refine (h.mono.toDeskFacts.withBusy true).dispatch hwaits rfl hattempt credential ?_
      intro hcertain
      rw [hdoubted attempt hattempt] at hcertain
      cases hcertain

theorem DeskFacts.remove (h : DeskFacts k s desk) (n : Nat) : DeskFacts k s (desk.remove n) := by
  have hwaits : ∀ m task, (desk.remove n).tasks m = some task → desk.tasks m = some task := by
    intro m task hm
    by_cases hn : m = n
    · subst hn
      simp [Desk.remove] at hm
    · simpa [Desk.remove, hn] using hm
  exact { h with
    numbered := fun m task hm => h.numbered m task (hwaits m task hm)
    older := fun m task hm => h.older m task (hwaits m task hm)
    dispatched := fun m attempt credential recover generation hm =>
      h.dispatched m attempt credential recover generation (hwaits m _ hm) }

variable {tokenizer : JsonTokenizer} {reply : Option HttpReply}

theorem outcomes_self (attempt : Option Attempt) :
    outcomes tokenizer reply attempt attempt = [] := by
  cases attempt <;> rfl

theorem Phase.remove (h : Phase s desk) (htask : desk.tasks n = some task)
    (hstale : task.generation ≠ s.generation) : Phase s (desk.remove n) := by
  have hwaits : ∀ m other, (desk.remove n).tasks m = some other → desk.tasks m = some other := by
    intro m other hm
    by_cases hn : m = n
    · subst hn
      simp [Desk.remove] at hm
    · simpa [Desk.remove, hn] using hm
  cases h with
  | idle hidle hdoubted => exact .idle (fun m other hm => hidle m other (hwaits m other hm)) hdoubted
  | running m other hother hlive honly hbusy hfacts =>
      have hne : m ≠ n := by
        rintro rfl
        obtain rfl := Option.some.inj (htask.symm.trans hother)
        exact hstale hlive
      exact .running m other (by simpa [Desk.remove, hne] using hother) hlive
        (fun i waiting hi => honly i waiting (hwaits i waiting hi)) hbusy hfacts

section Resumes

variable {credential : String} {recover : Bool}

theorem SessionFacts.ends (h : SessionFacts k s desk) (htask : desk.tasks n = some task)
    (hloads : task.Loads) {busy : Bool} (hbusy : busy = s.busy ∨ task.generation = s.generation) :
    SessionFacts k { s with busy } (desk.remove n) := by
  have hrest : DeskFacts k s (desk.remove n) := h.toDeskFacts.remove n
  by_cases hlive : task.generation = s.generation
  · obtain ⟨hfacts, -, hidle⟩ := h.running htask hlive
    cases task with
    | loadTable config table generation => exact ⟨hrest.withBusy busy, .idle hidle hfacts⟩
    | loadApplication config generation => exact ⟨hrest.withBusy busy, .idle hidle hfacts⟩
    | dispatch attempt credential recover generation => exact hloads.elim
  · obtain rfl := hbusy.resolve_right hlive
    exact ⟨hrest, h.phase.remove htask hlive⟩

theorem SessionFacts.continues (h : SessionFacts k s desk) (htask : desk.tasks n = some task)
    (hloads : task.Loads) (hnext : next.Loads) (hlive : task.generation = s.generation)
    (hgeneration : next.generation = s.generation) :
    SessionFacts k s ((desk.remove n).await (some next)) := by
  have hrest : DeskFacts k s (desk.remove n) := h.toDeskFacts.remove n
  obtain ⟨hfacts, hbusy, hidle⟩ := h.running htask hlive
  cases task with
  | loadTable config table generation => exact hrest.load hidle hbusy hfacts hnext hgeneration
  | loadApplication config generation => exact hrest.load hidle hbusy hfacts hnext hgeneration
  | dispatch attempt credential recover generation => exact hloads.elim

/-- An accepted receipt ends the attempt, and the page is loaded again. -/
theorem SessionFacts.receives (h : SessionFacts k s desk)
    (htask : desk.tasks n = some (.dispatch attempt credential recover s.generation))
    {receipt : ReceiptResponseDto}
    (hreply : readReply tokenizer ReceiptResponseDto reply = .ok receipt)
    (hmatches : receiptMatches receipt attempt) (config : Config) :
    SessionFacts k { s with attempt := none }
      (((desk.remove n).note (outcomes tokenizer reply s.attempt none)).await
        (some (.loadApplication config s.generation))) := by
  have hrest : DeskFacts k s (desk.remove n) := h.toDeskFacts.remove n
  obtain ⟨⟨hattempt, -, -⟩, hbusy, hidle⟩ := h.running htask rfl
  have hnotes : outcomes tokenizer reply s.attempt none = [.received attempt.intent receipt] := by
    simp only [hattempt, outcomes, hreply]
  have hopen : openAttempt desk.history = some attempt.intent := by
    rw [← h.opened, hattempt]
    rfl
  have hfacts : NoteFacts (desk.remove n).history (.received attempt.intent receipt) :=
    ⟨hopen, hmatches⟩
  have hnoted : DeskFacts k ⟨none, s.busy, s.generation⟩
      ((desk.remove n).note [.received attempt.intent receipt]) := hrest.note hfacts rfl s.busy
  rw [hnotes]
  refine hnoted.load hidle hbusy ?_ trivial rfl
  rintro other hother
  cases hother

/-- Without an answer to rely on, the attempt stays and is in doubt. -/
theorem SessionFacts.doubts (h : SessionFacts k s desk)
    (htask : desk.tasks n = some (.dispatch attempt credential recover s.generation)) :
    SessionFacts k { s with attempt := some attempt.doubted, busy := false }
      ((desk.remove n).note (outcomes tokenizer reply s.attempt (some attempt.doubted))) := by
  have hrest : DeskFacts k s (desk.remove n) := h.toDeskFacts.remove n
  obtain ⟨⟨hattempt, -, -⟩, -, hidle⟩ := h.running htask rfl
  have hnotes : outcomes tokenizer reply s.attempt (some attempt.doubted) = [] := by
    rw [hattempt]
    rfl
  rw [hnotes, note_nil]
  have hsame : s.attempt.map Attempt.intent = some attempt.doubted.intent := by
    rw [hattempt]
    rfl
  refine ⟨{ hrest with opened := hsame.symm.trans hrest.opened }, .idle hidle ?_⟩
  rintro other hother
  obtain rfl := Option.some.inj hother
  rfl

/-- A refusal ends an attempt that was posted once and is not in doubt. -/
theorem SessionFacts.refuses (h : SessionFacts k s desk)
    (htask : desk.tasks n = some (.dispatch attempt credential false s.generation))
    (hcertain : attempt.uncertain = false) {code : ErrorCodeDto}
    (hreply : request tokenizer reply = .error (.api code)) :
    SessionFacts k { s with attempt := none, busy := false }
      ((desk.remove n).note (outcomes tokenizer reply s.attempt none)) := by
  have hrest : DeskFacts k s (desk.remove n) := h.toDeskFacts.remove n
  obtain ⟨⟨hattempt, -, hfirst⟩, -, hidle⟩ := h.running htask rfl
  have hnotes : outcomes tokenizer reply s.attempt none = [.refused attempt.intent code] := by
    simp only [hattempt, outcomes, readReply, hreply]
    rfl
  have hopen : openAttempt desk.history = some attempt.intent := by
    rw [← h.opened, hattempt]
    rfl
  have hfacts : NoteFacts (desk.remove n).history (.refused attempt.intent code) :=
    ⟨hopen, n, (hfirst hcertain).2⟩
  have hnoted : DeskFacts k ⟨none, false, s.generation⟩
      ((desk.remove n).note [.refused attempt.intent code]) := hrest.note hfacts rfl false
  rw [hnotes]
  refine ⟨hnoted, .idle hidle ?_⟩
  rintro other hother
  cases hother

theorem SessionFacts.retains (h : SessionFacts k s desk)
    (htask : desk.tasks n = some (.dispatch attempt credential recover s.generation))
    (hretained : recover = true ∨ attempt.uncertain = true) :
    SessionFacts k { s with busy := false } (desk.remove n) := by
  have hrest : DeskFacts k s (desk.remove n) := h.toDeskFacts.remove n
  obtain ⟨⟨hattempt, -, hfirst⟩, -, hidle⟩ := h.running htask rfl
  refine ⟨hrest.withBusy false, .idle hidle ?_⟩
  rintro other hother
  obtain rfl := Option.some.inj (hattempt.symm.trans hother)
  rcases hretained with rfl | hdoubted
  · by_contra hcertain
    cases (hfirst (by simpa using hcertain)).1
  · exact hdoubted

/-- Every task that goes on keeps the facts. -/
theorem SessionFacts.resumes (h : SessionFacts k s desk) (htask : desk.tasks n = some task)
    {s' : Session} {continued : Option Task}
    (hresumes : Resumes tokenizer s reply task s' continued) :
    SessionFacts k s'
      (((desk.remove n).note (outcomes tokenizer reply s.attempt s'.attempt)).await continued) := by
  cases hresumes with
  | stale hstale =>
      rw [outcomes_self, note_nil]
      exact ⟨h.toDeskFacts.remove n, h.phase.remove htask hstale⟩
  | ends busy hloads hbusy =>
      rw [outcomes_self, note_nil]
      exact h.ends htask hloads hbusy
  | continues hloads hnext hlive hgeneration =>
      rw [outcomes_self, note_nil]
      exact h.continues htask hloads hnext hlive hgeneration
  | receives config hreply hmatches => exact h.receives htask hreply hmatches config
  | doubts => exact h.doubts htask
  | refuses hcertain hreply hcode => exact h.refuses htask hcertain hreply
  | retains hretained =>
      rw [outcomes_self, note_nil]
      exact h.retains htask hretained

end Resumes

theorem SessionFacts.start : SessionFacts 0 State.start.session Desk.start where
  bounded := le_of_eq rfl
  numbered := by rintro n task ⟨⟩
  older := by rintro n task ⟨⟩
  posted := by rintro n attempt ⟨⟩
  dispatched := by rintro n attempt credential recover generation ⟨⟩
  opened := rfl
  entries := eachEntry_nil
  phase := .idle (by rintro n task ⟨⟩) (by rintro attempt ⟨⟩)

/-- The desk after notes and with the next task. -/
structure Proceeds (before after : Desk) (notes : List Note) (started : Option Task) : Prop where
  tasks : ∀ n task, after.tasks n = some task →
    n = before.sent ∧ started = some task ∨ before.tasks n = some task
  sent : before.sent ≤ after.sent
  awaits : started ≠ none → before.sent < after.sent
  history : after.history =
    before.history ++ notes ++ started.elim [] fun task => task.posts before.sent

theorem proceeds_await (desk : Desk) (notes : List Note) (started : Option Task) :
    Proceeds desk ((desk.note notes).await started) notes started := by
  cases started with
  | none => exact ⟨fun _ _ h => .inr h, le_refl _, fun h => absurd rfl h, (List.append_nil _).symm⟩
  | some task =>
      refine ⟨fun n waiting hwaiting => ?_, Nat.le_succ _, fun _ => Nat.lt_succ_self _, rfl⟩
      by_cases hn : n = desk.sent
      · subst hn
        exact .inl ⟨rfl, by simpa [Desk.await, Desk.note] using hwaiting⟩
      · exact .inr (by simpa [Desk.await, Desk.note, hn] using hwaiting)

theorem Proceeds.of_remove {after : Desk} {notes : List Note} {started : Option Task}
    (h : Proceeds (desk.remove n) after notes started) : Proceeds desk after notes started := by
  refine ⟨fun m waiting hwaiting => (h.tasks m waiting hwaiting).imp_right fun hm => ?_, h.sent,
    h.awaits, h.history⟩
  by_cases hn : m = n
  · subst hn
    simp [Desk.remove] at hm
  · simpa [Desk.remove, hn] using hm

theorem submissions_of_acts {event : Event} {s' : Session} {started : Option Task} {note : Note}
    (hacts : Acts s event s' started) (hnote : note ∈ submissions s.attempt s'.attempt) :
    ∃ attempt, note = .submitted attempt ∧ event = .submit (some attempt.request.requestKey) := by
  cases hacts with
  | submits credential hidle hnone hcertain hkey hencoded =>
      rename_i attempt key
      rw [hnone, submissions, List.mem_singleton] at hnote
      exact ⟨attempt.intent, hnote, by rw [← hkey]; rfl⟩
  | rests => rw [submissions_self] at hnote; cases hnote
  | disconnects => rw [submissions_invalidate] at hnote; cases hnote
  | connects config => rw [submissions_invalidate] at hnote; cases hnote
  | loads hidle hloads hgeneration => rw [submissions_self] at hnote; cases hnote
  | sends credential recover hidle hattempt => rw [submissions_self] at hnote; cases hnote

/-- How an attempt ends by the reply to a request. -/
inductive Learned (tokenizer : JsonTokenizer) (desk : Desk) (n : Nat) (reply : Option HttpReply) :
    Note → Prop
  | received {attempt credential recover generation receipt}
      (htask : desk.tasks n = some (.dispatch attempt credential recover generation))
      (hreply : readReply tokenizer ReceiptResponseDto reply = .ok receipt) :
      Learned tokenizer desk n reply (.received attempt.intent receipt)
  | refused {attempt code} (hposted : .posted n attempt ∈ desk.history)
      (hreply : request tokenizer reply = .error (.api code)) (hcode : code ≠ .internal) :
      Learned tokenizer desk n reply (.refused attempt code)

theorem learned_of_resumes (h : SessionFacts k s desk) (htask : desk.tasks n = some task)
    {s' : Session} {continued : Option Task} {note : Note}
    (hresumes : Resumes tokenizer s reply task s' continued)
    (hnote : note ∈ outcomes tokenizer reply s.attempt s'.attempt) :
    Learned tokenizer desk n reply note := by
  cases hresumes with
  | receives config hreply hmatches =>
      obtain ⟨⟨hattempt, -, -⟩, -, -⟩ := h.running htask rfl
      simp only [hattempt, outcomes, hreply, List.mem_singleton] at hnote
      rw [hnote]
      exact .received htask hreply
  | refuses hcertain hreply hcode =>
      rename_i attempt credential code
      obtain ⟨⟨hattempt, -, hfirst⟩, -, -⟩ := h.running htask rfl
      have hread : readReply tokenizer ReceiptResponseDto reply = .error (.api code) := by
        rw [readReply, hreply]
        rfl
      simp only [hattempt, outcomes, hread, List.mem_singleton] at hnote
      rw [hnote]
      refine .refused (mem_postsOf.1 ?_) hreply hcode
      rw [(hfirst hcertain).2]
      exact List.mem_cons_self
  | doubts =>
      obtain ⟨⟨hattempt, -, -⟩, -, -⟩ := h.running htask rfl
      rw [hattempt] at hnote
      cases hnote
  | stale hstale => rw [outcomes_self] at hnote; cases hnote
  | ends busy hloads hbusy => rw [outcomes_self] at hnote; cases hnote
  | continues hloads hnext hlive hgeneration => rw [outcomes_self] at hnote; cases hnote
  | retains hretained => rw [outcomes_self] at hnote; cases hnote

theorem attempt_of_acts {event : Event} {s' : Session} {started : Option Task}
    (hacts : Acts s event s' started) (hattempt : s.attempt = some attempt)
    (huncertain : attempt.uncertain = true) : s'.attempt = some attempt := by
  have hdoubted : attempt.doubted = attempt := by rw [Attempt.doubted, ← huncertain]
  have hinvalidate : s.invalidate.attempt = some attempt := by
    rw [Session.invalidate, hattempt, Option.map_some, hdoubted]
  cases hacts with
  | rests => exact hattempt
  | disconnects => exact hinvalidate
  | connects config => exact hinvalidate
  | loads hidle hloads hgeneration => exact hattempt
  | submits credential hidle hnone hcertain hkey hencoded => rw [hnone] at hattempt; cases hattempt
  | sends credential recover hidle hsent => exact hattempt

/-- The page keeps an uncertain attempt until a receipt is there. -/
theorem attempt_of_resumes (h : SessionFacts k s desk) (htask : desk.tasks n = some task)
    {s' : Session} {continued : Option Task}
    (hresumes : Resumes tokenizer s reply task s' continued) (hattempt : s.attempt = some attempt)
    (huncertain : attempt.uncertain = true) :
    s'.attempt = some attempt ∨ ∃ credential recover receipt,
      task = .dispatch attempt credential recover s.generation ∧
        readReply tokenizer ReceiptResponseDto reply = .ok receipt := by
  cases hresumes with
  | stale hstale => exact .inl hattempt
  | ends busy hloads hbusy => exact .inl hattempt
  | continues hloads hnext hlive hgeneration => exact .inl hattempt
  | receives config hreply hmatches =>
      obtain ⟨⟨hsame, -, -⟩, -, -⟩ := h.running htask rfl
      obtain rfl := Option.some.inj (hsame.symm.trans hattempt)
      exact .inr ⟨_, _, _, rfl, hreply⟩
  | doubts =>
      obtain ⟨⟨hsame, -, -⟩, -, -⟩ := h.running htask rfl
      obtain rfl := Option.some.inj (hsame.symm.trans hattempt)
      refine .inl (congrArg some ?_)
      rw [Attempt.doubted, ← huncertain]
  | refuses hcertain hreply hcode =>
      obtain ⟨⟨hsame, -, -⟩, -, -⟩ := h.running htask rfl
      obtain rfl := Option.some.inj (hsame.symm.trans hattempt)
      rw [huncertain] at hcertain
      cases hcertain
  | retains hretained => exact .inl hattempt

section Client

variable {validBase : String → Bool} {client next : Client} {event : Event}

theorem Client.of_act (h : client.act validBase event = some next) :
    ∃ page started, client.page.handle validBase event = some (page, started) ∧ next.page = page ∧
      next.desk = (client.desk.note (submissions client.page.state.attempt
        page.state.attempt)).await started := by
  obtain ⟨⟨page, started⟩, hhandle, hnext⟩ := Option.bind_eq_some_iff.1 h
  obtain rfl := Option.some.inj hnext
  exact ⟨page, started, hhandle, rfl, rfl⟩

theorem Client.of_answer (h : client.answer tokenizer n reply = some next) :
    ∃ task, client.desk.tasks n = some task ∧
      next.page.state = (resume tokenizer client.page.state reply task).1 ∧
      next.desk = ((client.desk.remove n).note (outcomes tokenizer reply client.page.state.attempt
        (resume tokenizer client.page.state reply task).1.attempt)).await
          (resume tokenizer client.page.state reply task).2 := by
  obtain ⟨task, htask, hnext⟩ := Option.bind_eq_some_iff.1 h
  obtain rfl := Option.some.inj hnext
  exact ⟨task, htask, rfl, rfl⟩

theorem Proceeds.prefix_history {after : Desk} {notes : List Note} {started : Option Task}
    (h : Proceeds desk after notes started) : desk.history <+: after.history := by
  rw [h.history, List.append_assoc]
  exact List.prefix_append _ _

theorem Client.act_history (h : client.act validBase event = some next) :
    client.desk.history <+: next.desk.history := by
  obtain ⟨page, started, -, -, hdesk⟩ := Client.of_act h
  rw [hdesk]
  exact (proceeds_await _ _ _).prefix_history

theorem Client.answer_history (h : client.answer tokenizer n reply = some next) :
    client.desk.history <+: next.desk.history := by
  obtain ⟨task, -, -, hdesk⟩ := Client.of_answer h
  rw [hdesk]
  exact (proceeds_await _ _ _).of_remove.prefix_history

theorem SessionFacts.act (h : SessionFacts k client.page.state.session client.desk)
    (hk : k + 1 < 2 ^ 64)
    (hfresh : ∀ key, event = .submit (some key) → ∀ other, .submitted other ∈ client.desk.history →
      other.request.requestKey ≠ key)
    (hact : client.act validBase event = some next) :
    SessionFacts (k + 1) next.page.state.session next.desk ∧ ∃ notes started,
      Proceeds client.desk next.desk notes started ∧ ∀ note ∈ notes,
        ∃ attempt, note = .submitted attempt ∧ event = .submit (some attempt.request.requestKey) := by
  obtain ⟨page, started, hhandle, hpage, hdesk⟩ := Client.of_act hact
  have hacts := acts_handle hhandle
  rw [hpage, hdesk]
  exact ⟨h.acts hk hacts hfresh, _, started, proceeds_await _ _ _,
    fun note hnote => submissions_of_acts hacts hnote⟩

theorem SessionFacts.answer (h : SessionFacts k client.page.state.session client.desk)
    (hanswer : client.answer tokenizer n reply = some next) :
    SessionFacts k next.page.state.session next.desk ∧ ∃ notes continued,
      Proceeds client.desk next.desk notes continued ∧
        ∀ note ∈ notes, Learned tokenizer client.desk n reply note := by
  obtain ⟨task, htask, hstate, hdesk⟩ := Client.of_answer hanswer
  have hresumes : Resumes tokenizer client.page.state.session reply task _ _ := resumes_resume task
  rw [hstate, hdesk]
  exact ⟨h.resumes htask hresumes, _, _, (proceeds_await _ _ _).of_remove,
    fun note hnote => learned_of_resumes h htask hresumes hnote⟩

end Client

end Facts

end Evobase.Runtime
