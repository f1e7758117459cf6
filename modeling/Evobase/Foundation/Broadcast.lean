import Mathlib.Data.List.Basic
import Mathlib.Tactic

/-!
# Broadcast channels

A channel numbers the messages sent and keeps the last of them, up to its capacity. A reader goes
from position to position; when the message at its position is no longer kept, it goes on at the
oldest one that is. What a reader has read is a part of what was sent since it started, in order,
and what it has missed was more than the capacity behind (`Reads.receive`).
-/

namespace Foundation

variable {M : Type}

/-- The number of messages sent and the last of them. -/
structure Broadcast (M : Type) where
  position : Nat
  buffer : List M

/-- What a reader receives. -/
inductive Received (M : Type) where
  | empty
  | lagged (missed : Nat)
  | message (message : M)

namespace Broadcast

def new : Broadcast M := ⟨0, []⟩

/-- A message takes the place of the oldest one in a full buffer. -/
def send (capacity : Nat) (channel : Broadcast M) (message : M) : Broadcast M :=
  let buffer := channel.buffer ++ [message]
  ⟨channel.position + 1, buffer.drop (buffer.length - capacity)⟩

/-- What a reader at a position receives, and its next position. -/
def receive (channel : Broadcast M) (next : Nat) : Received M × Nat :=
  let oldest := channel.position - channel.buffer.length
  if next < oldest then (.lagged (oldest - next), oldest)
  else
    match channel.buffer[next - oldest]? with
    | some message => (.message message, next + 1)
    | none => (.empty, next)

/-- The channel keeps the last of the messages sent. -/
structure Holds (capacity : Nat) (channel : Broadcast M) (sent : List M) : Prop where
  position : channel.position = sent.length
  buffer : channel.buffer = sent.drop (sent.length - capacity)

/-- A reader that started at a position has read some of the messages since, in order; those it
has passed without reading were out of reach. -/
structure Reads (capacity : Nat) (sent : List M) (start next : Nat) (got : List M) : Prop where
  start_le : start ≤ next
  le_length : next ≤ sent.length
  positions : ∃ positions : List Nat, positions.Pairwise (· < ·) ∧
    (∀ p ∈ positions, start ≤ p ∧ p < next) ∧
    (∀ p, start ≤ p → p < next → p ∈ positions ∨ p + capacity < sent.length) ∧
    got = positions.filterMap fun p => sent[p]?

section Lemmas

variable {capacity start next : Nat} {channel : Broadcast M} {sent got : List M} {message : M}

theorem holds_new (capacity : Nat) : Holds capacity new ([] : List M) := ⟨rfl, by simp [new]⟩

theorem Holds.send (h : channel.Holds capacity sent) (message : M) :
    (channel.send capacity message).Holds capacity (sent ++ [message]) := by
  refine ⟨by simp [Broadcast.send, h.position], ?_⟩
  simp only [Broadcast.send, h.buffer]
  rw [← List.drop_append_of_le_length (Nat.sub_le _ _), List.drop_drop]
  congr 1
  simp only [List.length_drop, List.length_append, List.length_singleton]
  omega

theorem Holds.oldest (h : channel.Holds capacity sent) :
    channel.position - channel.buffer.length = sent.length - capacity := by
  rw [h.position, h.buffer, List.length_drop]
  omega

theorem reads_start (capacity : Nat) (sent : List M) :
    Reads capacity sent sent.length sent.length [] :=
  ⟨le_rfl, le_rfl, [], by simp, by simp, fun p hstart hnext => absurd hnext (by omega), rfl⟩

theorem Reads.send (h : Reads capacity sent start next got) (message : M) :
    Reads capacity (sent ++ [message]) start next got := by
  obtain ⟨positions, hsorted, hbounds, hmissed, rfl⟩ := h.positions
  have hlength := h.le_length
  refine ⟨h.start_le, by simp; omega, positions, hsorted, hbounds, fun p hp hnext => ?_, ?_⟩
  · refine (hmissed p hp hnext).imp_right fun hlag => ?_
    rw [List.length_append]
    omega
  · refine List.filterMap_congr fun p hp => ?_
    rw [List.getElem?_append_left (by have := hbounds p hp; omega)]

/-- A reader receives the message at its position, or passes what is out of reach. -/
theorem Reads.receive (hholds : channel.Holds capacity sent) (h : Reads capacity sent start next got) :
    match (channel.receive next).1 with
    | .message message => Reads capacity sent start (channel.receive next).2 (got ++ [message])
    | .lagged _ | .empty => Reads capacity sent start (channel.receive next).2 got := by
  obtain ⟨positions, hsorted, hbounds, hmissed, hgot⟩ := h.positions
  have hstart := h.start_le
  have hlength := h.le_length
  unfold Broadcast.receive
  simp only [hholds.oldest]
  split_ifs with hlag
  · -- the reader goes on at the oldest message
    refine ⟨by omega, Nat.sub_le _ _, positions, hsorted, fun p hp => ?_, fun p hp hnext => ?_, hgot⟩
    · obtain ⟨hlow, hhigh⟩ := hbounds p hp
      exact ⟨hlow, by omega⟩
    · rcases Nat.lt_or_ge p next with hread | hpassed
      · exact hmissed p hp hread
      · exact .inr (by omega)
  · have hread : channel.buffer[next - (sent.length - capacity)]? = sent[next]? := by
      rw [hholds.buffer, List.getElem?_drop]
      congr 1
      omega
    rw [hread]
    cases hmessage : sent[next]? with
    | none => exact h
    | some message =>
        have hnext : next < sent.length := (List.getElem?_eq_some_iff.1 hmessage).1
        refine ⟨by simp; omega, hnext, positions ++ [next], ?_, fun p hp => ?_, fun p hp hle => ?_, ?_⟩
        · rw [List.pairwise_append]
          refine ⟨hsorted, by simp, fun p hp q hq => ?_⟩
          rw [List.mem_singleton.1 hq]
          exact (hbounds p hp).2
        · rcases List.mem_append.1 hp with hold | hnew
          · obtain ⟨hlow, hhigh⟩ := hbounds p hold
            exact ⟨hlow, Nat.lt_succ_of_lt hhigh⟩
          · rw [List.mem_singleton.1 hnew]
            exact ⟨hstart, Nat.lt_succ_self next⟩
        · rcases Nat.lt_or_eq_of_le (Nat.le_of_lt_succ hle) with hlt | rfl
          · exact (hmissed p hp hlt).imp_left (List.mem_append_left _)
          · exact .inl (by simp)
        · rw [List.filterMap_append, hgot]
          simp [hmessage]

theorem sublist_filterMap_getElem? {positions : List Nat} (hsorted : positions.Pairwise (· < ·))
    (hstart : ∀ p ∈ positions, start ≤ p) :
    (positions.filterMap fun p => sent[p]?).Sublist (sent.drop start) := by
  induction positions generalizing start with
  | nil => exact List.nil_sublist _
  | cons p rest ih =>
      obtain ⟨hfirst, hrest⟩ := List.pairwise_cons.1 hsorted
      have hle : start ≤ p := hstart p List.mem_cons_self
      have hdrop : (sent.drop p).Sublist (sent.drop start) := by
        rw [← Nat.add_sub_of_le hle, ← List.drop_drop]
        exact List.drop_sublist _ _
      have hlater : (rest.filterMap fun p => sent[p]?).Sublist (sent.drop (p + 1)) := ih hrest hfirst
      cases hmessage : sent[p]? with
      | none =>
          rw [List.filterMap_cons_none hmessage]
          refine hlater.trans (List.Sublist.trans ?_ hdrop)
          rw [← List.drop_drop]
          exact List.drop_sublist _ _
      | some message =>
          rw [List.filterMap_cons_some hmessage]
          refine List.Sublist.trans ?_ hdrop
          obtain ⟨hlt, rfl⟩ := List.getElem?_eq_some_iff.1 hmessage
          rw [List.drop_eq_getElem_cons hlt]
          exact hlater.cons_cons _

theorem Reads.sublist (h : Reads capacity sent start next got) : got.Sublist (sent.drop start) := by
  obtain ⟨positions, hsorted, hbounds, -, rfl⟩ := h.positions
  exact sublist_filterMap_getElem? hsorted fun p hp => (hbounds p hp).1

end Lemmas

end Broadcast

end Foundation
