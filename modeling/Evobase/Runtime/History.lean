import Evobase.Foundation.Run
import Evobase.Runtime.Session

/-!
# What the page has done

The history notes what the page submits, which requests it posts for it and how an attempt ends.
The page does not read it. In a history that is in order (`NoteFacts`) an attempt is open from its
submission to its end, is not opened again (`Ended.not_open`), and has been posted once when it is
refused (`posts_of_refused`).
-/

namespace Evobase.Runtime

open Foundation

def Attempt.intent (attempt : Attempt) : Attempt := { attempt with uncertain := false }

theorem Attempt.intent_eq {attempt : Attempt} (h : attempt.uncertain = false) :
    attempt.intent = attempt := by
  rw [intent, ← h]

inductive Note where
  | submitted (attempt : Attempt)
  | posted (n : Nat) (attempt : Attempt)
  | received (attempt : Attempt) (receipt : ReceiptResponseDto)
  | refused (attempt : Attempt) (code : ErrorCodeDto)

/-- The attempt that is open after a note, when the note says so. -/
def Note.opens : Note → Option (Option Attempt)
  | .submitted attempt => some (some attempt)
  | .posted _ _ => none
  | .received _ _ => some none
  | .refused _ _ => some none

def openAttempt (history : List Note) : Option Attempt := (latest Note.opens history).join

def Note.postOf (attempt : Attempt) : Note → Option Nat
  | .posted n other => if other = attempt then some n else none
  | _ => none

def postsOf (attempt : Attempt) (history : List Note) : List Nat :=
  history.filterMap (Note.postOf attempt)

/-- What holds when a note is made. -/
def NoteFacts (before : List Note) : Note → Prop
  | .submitted attempt => openAttempt before = none ∧ attempt.Encoded ∧
      ∀ other, .submitted other ∈ before → other.request.requestKey ≠ attempt.request.requestKey
  | .posted _ attempt => openAttempt before = some attempt
  | .received attempt receipt => openAttempt before = some attempt ∧ receiptMatches receipt attempt
  | .refused attempt _ => openAttempt before = some attempt ∧ ∃ n, postsOf attempt before = [n]

section History

variable {history : List Note} {attempt other : Attempt}

@[simp] theorem openAttempt_append_singleton (note : Note) :
    openAttempt (history ++ [note]) = (note.opens.or (latest Note.opens history)).join := by
  rw [openAttempt, latest_append_singleton]

theorem openAttempt_append_posted (n : Nat) (attempt : Attempt) :
    openAttempt (history ++ [.posted n attempt]) = openAttempt history := by
  rw [openAttempt_append_singleton]
  rfl

theorem submitted_of_openAttempt (h : openAttempt history = some attempt) :
    .submitted attempt ∈ history := by
  rw [openAttempt, Option.join_eq_some_iff] at h
  obtain ⟨before, note, after, rfl, hnote⟩ := exists_of_latest h
  cases note with
  | submitted submitted =>
      obtain rfl := Option.some.inj (Option.some.inj hnote)
      simp
  | posted n posted => cases hnote
  | received received receipt => cases hnote
  | refused refused code => cases hnote

theorem mem_postsOf {n : Nat} : n ∈ postsOf attempt history ↔ .posted n attempt ∈ history := by
  rw [postsOf, List.mem_filterMap]
  constructor
  · rintro ⟨note, hmem, hpost⟩
    cases note with
    | posted m posted =>
        rw [Note.postOf] at hpost
        split_ifs at hpost with hsame
        obtain rfl := Option.some.inj hpost
        exact hsame ▸ hmem
    | submitted submitted => cases hpost
    | received received receipt => cases hpost
    | refused refused code => cases hpost
  · intro hmem
    exact ⟨_, hmem, if_pos rfl⟩

theorem postsOf_append_posted (n : Nat) :
    postsOf attempt (history ++ [.posted n attempt]) = postsOf attempt history ++ [n] := by
  rw [postsOf, List.filterMap_append]
  simp [postsOf, Note.postOf]

theorem submitted_of_posted (h : EachEntry NoteFacts history) {n : Nat}
    (hposted : .posted n attempt ∈ history) : .submitted attempt ∈ history := by
  obtain ⟨before, after, rfl⟩ := List.append_of_mem hposted
  exact List.mem_append_left _ (submitted_of_openAttempt (h before _ after rfl))

theorem noteFacts_last {note : Note} (h : EachEntry NoteFacts (history ++ [note])) :
    NoteFacts history note := h history note [] rfl

theorem eq_of_submitted (h : EachEntry NoteFacts history) (hattempt : .submitted attempt ∈ history)
    (hother : .submitted other ∈ history)
    (hkey : attempt.request.requestKey = other.request.requestKey) : attempt = other := by
  induction history using List.reverseRecOn with
  | nil => cases hattempt
  | append_singleton history note ih =>
      have hlast := noteFacts_last h
      rcases List.mem_append.1 hattempt with hfirst | hfirst <;>
        rcases List.mem_append.1 hother with hsecond | hsecond
      · exact ih h.left hfirst hsecond
      · obtain rfl := List.mem_singleton.1 hsecond
        exact absurd hkey (hlast.2.2 attempt hfirst)
      · obtain rfl := List.mem_singleton.1 hfirst
        exact absurd hkey.symm (hlast.2.2 other hsecond)
      · obtain rfl := List.mem_singleton.1 hfirst
        exact (Note.submitted.inj (List.mem_singleton.1 hsecond)).symm

def Ended (history : List Note) (attempt : Attempt) : Prop :=
  (∃ receipt, .received attempt receipt ∈ history) ∨ ∃ code, .refused attempt code ∈ history

theorem Ended.mono {more : List Note} (h : Ended history attempt) : Ended (history ++ more) attempt := by
  rcases h with ⟨receipt, hreceived⟩ | ⟨code, hrefused⟩
  · exact .inl ⟨receipt, List.mem_append_left _ hreceived⟩
  · exact .inr ⟨code, List.mem_append_left _ hrefused⟩

theorem Ended.submitted (h : EachEntry NoteFacts history) (hended : Ended history attempt) :
    .submitted attempt ∈ history := by
  rcases hended with ⟨receipt, hreceived⟩ | ⟨code, hrefused⟩
  · obtain ⟨before, after, rfl⟩ := List.append_of_mem hreceived
    exact List.mem_append_left _ (submitted_of_openAttempt (h before _ after rfl).1)
  · obtain ⟨before, after, rfl⟩ := List.append_of_mem hrefused
    exact List.mem_append_left _ (submitted_of_openAttempt (h before _ after rfl).1)

/-- An attempt that has ended is not opened again. -/
theorem Ended.not_open (h : EachEntry NoteFacts history) (hended : Ended history attempt) :
    openAttempt history ≠ some attempt := by
  induction history using List.reverseRecOn with
  | nil => simp [openAttempt]
  | append_singleton history note ih =>
      have hlast := noteFacts_last h
      rw [openAttempt_append_singleton]
      cases note with
      | submitted other =>
          intro heq
          obtain rfl := Option.some.inj (show some other = some attempt from heq)
          have hbefore : Ended history other := by
            rcases hended with ⟨receipt, hreceived⟩ | ⟨code, hrefused⟩
            · exact .inl ⟨receipt, by simpa using hreceived⟩
            · exact .inr ⟨code, by simpa using hrefused⟩
          exact hlast.2.2 other (hbefore.submitted h.left) rfl
      | posted n other =>
          refine ih h.left ?_
          rcases hended with ⟨receipt, hreceived⟩ | ⟨code, hrefused⟩
          · exact .inl ⟨receipt, by simpa using hreceived⟩
          · exact .inr ⟨code, by simpa using hrefused⟩
      | received other receipt => nofun
      | refused other code => nofun

/-- An attempt that is refused has been posted once, before its refusal. -/
theorem posts_of_refused (h : EachEntry NoteFacts history) {code : ErrorCodeDto}
    (hrefused : .refused attempt code ∈ history) : ∃ n, postsOf attempt history = [n] := by
  induction history using List.reverseRecOn with
  | nil => cases hrefused
  | append_singleton history note ih =>
      have hlast := noteFacts_last h
      rcases List.mem_append.1 hrefused with hbefore | hnow
      · obtain ⟨n, hposts⟩ := ih h.left hbefore
        refine ⟨n, ?_⟩
        rw [postsOf, List.filterMap_append]
        change postsOf attempt history ++ _ = _
        rw [hposts, List.append_right_eq_self, List.filterMap_cons]
        cases note with
        | posted m other =>
            have hne : other ≠ attempt := by
              rintro rfl
              exact Ended.not_open h.left (.inr ⟨code, hbefore⟩) hlast
            simp [Note.postOf, hne]
        | submitted other => rfl
        | received other receipt => rfl
        | refused other code => rfl
      · obtain rfl := List.mem_singleton.1 hnow
        obtain ⟨-, n, hposts⟩ := hlast
        refine ⟨n, ?_⟩
        rw [postsOf, List.filterMap_append]
        exact (List.append_nil _).trans hposts

theorem open_or_ended (h : EachEntry NoteFacts history) (hsubmitted : .submitted attempt ∈ history) :
    openAttempt history = some attempt ∨ Ended history attempt := by
  induction history using List.reverseRecOn with
  | nil => cases hsubmitted
  | append_singleton history note ih =>
      have hlast := noteFacts_last h
      rw [openAttempt_append_singleton]
      rcases List.mem_append.1 hsubmitted with hbefore | hnow
      · rcases ih h.left hbefore with hopen | hended
        · cases note with
          | submitted other =>
              rw [hlast.1] at hopen
              cases hopen
          | posted n other => exact .inl hopen
          | received other receipt =>
              obtain rfl := Option.some.inj (hopen.symm.trans hlast.1)
              exact .inr (.inl ⟨receipt, by simp⟩)
          | refused other code =>
              obtain rfl := Option.some.inj (hopen.symm.trans hlast.1)
              exact .inr (.inr ⟨code, by simp⟩)
        · exact .inr hended.mono
      · obtain rfl := List.mem_singleton.1 hnow
        exact .inl rfl

end History

end Evobase.Runtime
