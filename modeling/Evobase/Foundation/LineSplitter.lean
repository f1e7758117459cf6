import Mathlib.Data.List.Infix
import Mathlib.Tactic

/-!
# A splitter of lines in chunks

A line ends with a line feed, a carriage return, or the two together. The splitter is given the
characters in slices: it carries the start of a line over to the next slice, and skips a line feed
that comes after a slice that has ended with a carriage return. Slice after slice it does what it
does one character at a time, so how the characters are cut into slices does not matter.
-/

namespace Foundation

/-- The start of a line that has not ended, and whether a line feed would belong to the line that
has ended last. -/
structure LineSplitter where
  carry : Option (List Char)
  skipLeadingLF : Bool
deriving DecidableEq

namespace LineSplitter

def new : LineSplitter := ⟨none, false⟩

/-- A slice from some character on, whose line has begun with `slice` after the carry. -/
def addLines (carry : Option (List Char)) (slice : List Char) (previous : Option Char) :
    List Char → List (List Char) × LineSplitter
  | [] =>
      if slice = [] then ([], ⟨carry, previous = some '\r'⟩)
      else ([], ⟨some (carry.getD [] ++ slice), false⟩)
  | c :: rest =>
      if c ≠ '\r' ∧ c ≠ '\n' then addLines carry (slice ++ [c]) (some c) rest
      else if c = '\n' ∧ previous = some '\r' then addLines carry [] (some c) rest
      else
        let rest := addLines none [] (some c) rest
        ((carry.getD [] ++ slice) :: rest.1, rest.2)

/-- The lines that end in a slice. -/
def addSlice (splitter : LineSplitter) (chunk : List Char) : List (List Char) × LineSplitter :=
  match chunk with
  | [] => ([], splitter)
  | c :: rest =>
      if splitter.skipLeadingLF = true ∧ c = '\n' then addLines splitter.carry [] none rest
      else addLines splitter.carry [] none (c :: rest)

def close (splitter : LineSplitter) : List (List Char) := splitter.carry.toList

def push (splitter : LineSplitter) (c : Char) : List (List Char) × LineSplitter :=
  if c = '\n' ∧ splitter.skipLeadingLF = true then ([], ⟨splitter.carry, false⟩)
  else if c = '\r' ∨ c = '\n' then ([splitter.carry.getD []], ⟨none, c = '\r'⟩)
  else ([], ⟨some (splitter.carry.getD [] ++ [c]), false⟩)

def feed (splitter : LineSplitter) : List Char → List (List Char) × LineSplitter
  | [] => ([], splitter)
  | c :: cs =>
      let pushed := splitter.push c
      let rest := pushed.2.feed cs
      (pushed.1 ++ rest.1, rest.2)

variable {splitter : LineSplitter} {c : Char} {line cs slice : List Char}
  {carry : Option (List Char)} {previous : Option Char}

theorem feed_cons : splitter.feed (c :: cs) =
    ((splitter.push c).1 ++ ((splitter.push c).2.feed cs).1, ((splitter.push c).2.feed cs).2) :=
  rfl

theorem feed_append (splitter : LineSplitter) (xs ys : List Char) :
    splitter.feed (xs ++ ys) = ((splitter.feed xs).1 ++ ((splitter.feed xs).2.feed ys).1,
      ((splitter.feed xs).2.feed ys).2) := by
  induction xs generalizing splitter with
  | nil => rfl
  | cons c xs ih =>
      rw [List.cons_append, feed_cons, feed_cons]
      simp only [ih, List.append_assoc]

/-- The splitter within a slice, as it would be after the characters of the slice so far. -/
def within (carry : Option (List Char)) (slice : List Char) (previous : Option Char) : LineSplitter :=
  if slice = [] then ⟨carry, previous = some '\r'⟩ else ⟨some (carry.getD [] ++ slice), false⟩

theorem push_of_ne (hr : c ≠ '\r') (hn : c ≠ '\n') :
    splitter.push c = ([], ⟨some (splitter.carry.getD [] ++ [c]), false⟩) := by
  rw [push, if_neg fun h => hn h.1, if_neg fun h => h.elim hr hn]

theorem push_skipped (h : splitter.skipLeadingLF = true) :
    splitter.push '\n' = ([], ⟨splitter.carry, false⟩) :=
  if_pos ⟨rfl, h⟩

theorem push_of_break (hbreak : c = '\r' ∨ c = '\n')
    (hskip : c = '\n' → splitter.skipLeadingLF = false) :
    splitter.push c = ([splitter.carry.getD []], ⟨none, c = '\r'⟩) := by
  rw [push, if_neg fun h => by simp [hskip h.1] at h, if_pos hbreak]

theorem within_of_ne_nil (h : slice ≠ []) :
    within carry slice previous = ⟨some (carry.getD [] ++ slice), false⟩ := if_neg h

theorem within_nil : within carry [] previous = ⟨carry, previous = some '\r'⟩ := if_pos rfl

theorem carry_within : (within carry slice previous).carry.getD [] = carry.getD [] ++ slice := by
  by_cases hslice : slice = []
  · rw [hslice, within_nil, List.append_nil]
  · rw [within_of_ne_nil hslice]
    rfl

theorem addLines_eq_feed (cs : List Char) (carry : Option (List Char)) (slice : List Char)
    (previous : Option Char) (hslice : previous = some '\r' → slice = []) :
    addLines carry slice previous cs = (within carry slice previous).feed cs := by
  induction cs generalizing carry slice previous with
  | nil =>
      rw [addLines, within, feed]
      split_ifs <;> rfl
  | cons c cs ih =>
      rw [addLines, feed_cons]
      split_ifs with hplain hskip
      · rw [push_of_ne hplain.1 hplain.2, carry_within, ih _ _ _ fun h => absurd (Option.some.inj h) hplain.1,
          within_of_ne_nil (List.append_ne_nil_of_right_ne_nil _ (List.cons_ne_nil c [])),
          List.append_assoc]
        rfl
      · obtain ⟨rfl, rfl⟩ := hskip
        rw [hslice rfl, within_nil, push_skipped rfl, ih _ _ _ fun _ => rfl, within_nil]
        rfl
      · have hbreak : c = '\r' ∨ c = '\n' := by
          by_contra hnot
          exact hplain ⟨fun h => hnot (.inl h), fun h => hnot (.inr h)⟩
        rw [push_of_break hbreak ?_, carry_within, ih _ _ _ fun _ => rfl, within_nil]
        · simp
        · intro hn
          rw [within]
          split_ifs
          · exact decide_eq_false fun hprevious => hskip ⟨hn, hprevious⟩
          · rfl

theorem addSlice_eq_feed (splitter : LineSplitter) (chunk : List Char) :
    splitter.addSlice chunk = splitter.feed chunk := by
  cases chunk with
  | nil => rfl
  | cons c rest =>
      have hnone : ∀ cs, addLines splitter.carry [] none cs = feed ⟨splitter.carry, false⟩ cs := by
        intro cs
        rw [addLines_eq_feed cs _ _ none (fun h => absurd h (by decide)), within_nil]
        rfl
      rw [addSlice]
      split_ifs with hskip
      · rw [hnone, feed_cons, hskip.2, push_skipped hskip.1]
        rfl
      · -- a character other than a line feed is read alike whether or not one would be skipped
        have hpush : splitter.push c = push ⟨splitter.carry, false⟩ c := by
          have hnot : ¬ (c = '\n' ∧ splitter.skipLeadingLF = true) := fun h => hskip ⟨h.2, h.1⟩
          simp [push, hnot]
        rw [hnone, feed_cons, feed_cons, hpush]

theorem feed_of_forall (h : ∀ c ∈ cs, c ≠ '\r' ∧ c ≠ '\n') (hcs : cs ≠ []) :
    splitter.feed cs = ([], ⟨some (splitter.carry.getD [] ++ cs), false⟩) := by
  induction cs generalizing splitter with
  | nil => exact absurd rfl hcs
  | cons c cs ih =>
      obtain ⟨hr, hn⟩ := h c List.mem_cons_self
      rw [feed_cons, push_of_ne hr hn]
      cases cs with
      | nil => rfl
      | cons d cs =>
          rw [ih (fun e he => h e (List.mem_cons_of_mem _ he)) (List.cons_ne_nil d cs)]
          simp

theorem feed_line (h : ∀ c ∈ line, c ≠ '\r' ∧ c ≠ '\n') :
    new.feed (line ++ ['\n']) = ([line], new) := by
  cases line with
  | nil => rfl
  | cons c line =>
      rw [feed_append, feed_of_forall h (List.cons_ne_nil c line)]
      rfl

end LineSplitter

end Foundation
