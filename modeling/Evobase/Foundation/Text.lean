import Mathlib.Data.List.SplitOn
import Mathlib.Tactic

/-!
# Splitting text

A text is split at a character into the pieces between its occurrences, or once, at the first. It
is split into its lines at the line feeds.
-/

namespace Foundation

namespace Text

theorem isAlphanum_iff {c : Char} : c.isAlphanum = true ↔
    (48 ≤ c.toNat ∧ c.toNat ≤ 57) ∨ (65 ≤ c.toNat ∧ c.toNat ≤ 90) ∨
      (97 ≤ c.toNat ∧ c.toNat ≤ 122) := by
  change (decide (65 ≤ c.val ∧ c.val ≤ 90) || (decide (97 ≤ c.val) && decide (c.val ≤ 122)) ||
    (decide (48 ≤ c.val) && decide (c.val ≤ 57))) = true ↔ _
  simp only [Bool.or_eq_true, Bool.and_eq_true, decide_eq_true_eq, UInt32.le_iff_toNat_le]
  exact or_comm

def split (separator : Char) (text : String) : List String :=
  (text.toList.splitOn separator).map String.ofList

/-- The text before the first occurrence of a character, and the text after it. -/
def splitOnce (separator : Char) (text : String) : Option (String × String) :=
  if separator ∈ text.toList then
    some (.ofList (text.toList.takeWhile (· ≠ separator)),
      .ofList ((text.toList.dropWhile (· ≠ separator)).drop 1))
  else none

/-- The lines of a text. A line ends at a line feed or at a carriage return before one; what
follows the last line feed is a line when it is not empty. -/
def lines (text : String) : List String :=
  let pieces := text.toList.splitOn '\n'
  let ended := pieces.dropLast.map fun piece =>
    if piece.getLast? = some '\r' then piece.dropLast else piece
  let last := pieces.getLast?.getD []
  (if last = [] then ended else ended ++ [last]).map String.ofList

theorem split_intercalate {separator : Char} {texts : List String} (hne : texts ≠ [])
    (h : ∀ text ∈ texts, separator ∉ text.toList) :
    split separator ((String.singleton separator).intercalate texts) = texts := by
  unfold split
  rw [String.toList_intercalate, String.toList_singleton, List.splitOn_intercalate]
  · simp
  · intro _ hmem
    obtain ⟨text, htext, rfl⟩ := List.mem_map.1 hmem
    exact h text htext
  · simpa using hne

theorem splitOnce_eq_none_iff {separator : Char} {text : String} :
    splitOnce separator text = none ↔ separator ∉ text.toList := by
  simp [splitOnce]

theorem splitOnce_append {separator : Char} {before : String} (h : separator ∉ before.toList)
    (after : String) :
    splitOnce separator (before ++ String.singleton separator ++ after) = some (before, after) := by
  have hall : ∀ c ∈ before.toList, decide (c ≠ separator) = true := by
    intro c hc
    simpa using fun heq : c = separator => h (heq ▸ hc)
  unfold splitOnce
  rw [if_pos (by simp)]
  simp only [String.toList_append, String.toList_singleton, List.append_assoc, List.cons_append,
    List.nil_append]
  rw [List.takeWhile_append_of_pos hall, List.dropWhile_append_of_pos hall]
  simp

theorem length_of_splitOnce {separator : Char} {text before after : String}
    (h : splitOnce separator text = some (before, after)) : after.length < text.length := by
  unfold splitOnce at h
  split_ifs at h with hmem
  obtain ⟨-, rfl⟩ := Prod.mk.inj (Option.some.inj h)
  have hpos : 0 < text.toList.length := List.length_pos_of_mem hmem
  have hle := (List.dropWhile_suffix (fun c => decide (c ≠ separator)) (l := text.toList)).length_le
  rw [String.length_ofList, List.length_drop, ← String.length_toList]
  omega

end Text

end Foundation
