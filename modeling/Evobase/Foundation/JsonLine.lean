import Evobase.Foundation.JsonReader

/-!
# Values on one line

The compact text of a value has no control character, and neither its first nor its last
character is blank: written on a line of its own it is read back whole. A number that is kept as a
literal has to be one.
-/

namespace Foundation

namespace Json

def isNumeric (c : Char) : Bool := c.isDigit || c = '-' || c = '+' || c = '.' || c = 'e' || c = 'E'

mutual
/-- The numbers that are kept as literals are numbers. -/
def Plain : Json → Prop
  | .real literal => literal ≠ "" ∧ ∀ c ∈ literal.toList, isNumeric c = true
  | .arr elements => PlainElements elements
  | .obj members => PlainMembers members
  | _ => True

def PlainElements : List Json → Prop
  | [] => True
  | j :: rest => Plain j ∧ PlainElements rest

/-- `Plain` for every value of a list of members. -/
def PlainMembers : List (String × Json) → Prop
  | [] => True
  | (_, j) :: rest => Plain j ∧ PlainMembers rest
end

theorem le_utf8EncodeChar {c : Char} (h : 128 ≤ c.toNat) :
    ∀ b ∈ String.utf8EncodeChar c, 128 ≤ b.toNat := by
  have hval : c.val.toNat = c.toNat := rfl
  have hbyte : ∀ n : Nat, 128 ≤ n → n < 256 → 128 ≤ (UInt8.ofNat n).toNat := by
    intro n hlow hhigh
    rw [UInt8.toNat_ofNat_of_lt' (by simpa using hhigh)]
    exact hlow
  intro b hb
  unfold String.utf8EncodeChar at hb
  simp only [hval] at hb
  split_ifs at hb with h1 h2 h3
  · omega
  all_goals
    simp only [List.mem_cons, List.not_mem_nil, or_false] at hb
  · rcases hb with rfl | rfl <;> exact hbyte _ (by omega) (by omega)
  · rcases hb with rfl | rfl | rfl <;> exact hbyte _ (by omega) (by omega)
  · rcases hb with rfl | rfl | rfl | rfl <;> exact hbyte _ (by omega) (by omega)

theorem forall_mem_of_all {P : UInt8 → Prop} [DecidablePred P] {bs : List UInt8}
    (h : bs.all (fun b => decide (P b)) = true) : ∀ b ∈ bs, P b :=
  fun b hb => of_decide_eq_true (List.all_eq_true.1 h b hb)

theorem graphic_utf8EncodeChar {c : Char} (h : 32 ≤ c.toNat) :
    ∀ b ∈ String.utf8EncodeChar c, 32 ≤ b.toNat := by
  intro b hb
  rcases Nat.lt_or_ge c.toNat 128 with hlt | hge
  · rw [utf8EncodeChar_of_lt hlt, List.mem_singleton] at hb
    rw [hb, UInt8.toNat_ofNat_of_lt' (by simpa using hlt.trans (by decide))]
    exact h
  · exact le_trans (by decide) (le_utf8EncodeChar hge b hb)

theorem graphic_utf8 {cs : List Char} (h : ∀ c ∈ cs, 32 ≤ c.toNat) : ∀ b ∈ utf8 cs, 32 ≤ b.toNat := by
  intro b hb
  obtain ⟨c, hc, hbc⟩ := List.mem_flatMap.1 hb
  exact graphic_utf8EncodeChar (h c hc) b hbc

theorem graphic_escape (c : Char) : ∀ b ∈ escape c, 32 ≤ b.toNat := by
  have hhex : ∀ n, n < 16 → 32 ≤ (hexDigit n).toNat := by
    decide
  unfold escape
  split_ifs with h1 h2 h3 h4 h5 h6 h7 h8
  iterate 7 exact forall_mem_of_all (by decide)
  · simp only [List.mem_cons, List.not_mem_nil, or_false]
    rintro b (rfl | rfl | rfl | rfl | rfl | rfl)
    iterate 4 decide
    · exact hhex _ (by omega)
    · exact hhex _ (by omega)
  · exact graphic_utf8EncodeChar (by omega)

theorem graphic_printString (s : String) : ∀ b ∈ printString s, 32 ≤ b.toNat := by
  intro b hb
  rw [printString, List.mem_cons, List.mem_append, List.mem_singleton, List.mem_flatMap] at hb
  rcases hb with rfl | ⟨c, -, hc⟩ | rfl
  · decide
  · exact graphic_escape c b hc
  · decide

theorem graphic_printInt (n : Int) : ∀ b ∈ printInt n, 32 ≤ b.toNat := by
  intro b hb
  cases n with
  | ofNat n =>
      rw [Int.ofNat_eq_natCast, printInt_ofNat] at hb
      have := isDigitByte_of_mem hb
      simp [isDigitByte] at this
      omega
  | negSucc n =>
      rw [printInt_negSucc, List.mem_cons] at hb
      rcases hb with rfl | hb
      · decide
      · have := isDigitByte_of_mem hb
        simp [isDigitByte] at this
        omega

theorem numeric_bounds {c : Char} (h : isNumeric c = true) : 32 < c.toNat ∧ c.toNat < 128 := by
  have heq : ∀ d : Char, 32 < d.toNat ∧ d.toNat < 128 → c = d → 32 < c.toNat ∧ c.toNat < 128 := by
    rintro d hd rfl
    exact hd
  simp only [isNumeric, Bool.or_eq_true, decide_eq_true_eq] at h
  rcases h with ((((h | h) | h) | h) | h) | h
  · have := isDigit_lt h
    omega
  all_goals exact heq _ (by decide) h

mutual
theorem graphic_print : ∀ j : Json, j.Plain → ∀ b ∈ j.print, 32 ≤ b.toNat
  | .null, _ | .bool true, _ | .bool false, _ => by
      unfold print
      exact forall_mem_of_all (by decide)
  | .int n, _ => graphic_printInt n.val
  | .real literal, h => by
      rw [Plain] at h
      exact graphic_utf8 fun c hc => (numeric_bounds (h.2 c hc)).1.le
  | .str s, _ => graphic_printString s
  | .arr elements, h => by
      intro b hb
      rw [print, List.mem_cons, List.mem_append, List.mem_singleton] at hb
      rcases hb with rfl | hb | rfl
      · decide
      · exact graphic_printElements elements true (by simpa [Plain] using h) b hb
      · decide
  | .obj members, h => by
      intro b hb
      rw [print, List.mem_cons, List.mem_append, List.mem_singleton] at hb
      rcases hb with rfl | hb | rfl
      · decide
      · exact graphic_printMembers members true (by simpa [Plain] using h) b hb
      · decide

theorem graphic_printElements : ∀ (js : List Json) (first : Bool), PlainElements js →
    ∀ b ∈ printElements first js, 32 ≤ b.toNat
  | [], _, _ => by
      intro b hb
      cases hb
  | j :: rest, first, h => by
      intro b hb
      rw [PlainElements] at h
      rw [printElements, List.mem_append, List.mem_append] at hb
      rcases hb with (hb | hb) | hb
      · have hcomma : ∀ b ∈ ([44] : List UInt8), 32 ≤ b.toNat := forall_mem_of_all (by decide)
        cases first
        · exact hcomma b hb
        · exact absurd hb List.not_mem_nil
      · exact graphic_print j h.1 b hb
      · exact graphic_printElements rest false h.2 b hb

theorem graphic_printMembers : ∀ (ms : List (String × Json)) (first : Bool), PlainMembers ms →
    ∀ b ∈ printMembers first ms, 32 ≤ b.toNat
  | [], _, _ => by
      intro b hb
      cases hb
  | (name, j) :: rest, first, h => by
      intro b hb
      rw [PlainMembers] at h
      simp only [printMembers, List.mem_append, List.mem_cons] at hb
      rcases hb with ((hb | hb) | rfl | hb) | hb
      · have hcomma : ∀ b ∈ ([44] : List UInt8), 32 ≤ b.toNat := forall_mem_of_all (by decide)
        cases first
        · exact hcomma b hb
        · exact absurd hb List.not_mem_nil
      · exact graphic_printString name b hb
      · decide
      · exact graphic_print j h.1 b hb
      · exact graphic_printMembers rest false h.2 b hb
end

def IsInk (b : UInt8) : Prop := 32 < b.toNat ∧ b.toNat < 128

instance (b : UInt8) : Decidable (IsInk b) := inferInstanceAs (Decidable (_ ∧ _))

/-- The first and the last of some bytes are no blanks. -/
structure Edged (bs : List UInt8) : Prop where
  first : ∃ b ∈ bs.head?, IsInk b
  last : ∃ b ∈ bs.getLast?, IsInk b

theorem edged_of_forall {bs : List UInt8} (hne : bs ≠ []) (h : ∀ b ∈ bs, IsInk b) : Edged bs :=
  ⟨⟨bs.head hne, List.head_mem_head? hne, h _ (List.head_mem hne)⟩,
    ⟨bs.getLast hne, List.getLast_mem_getLast? hne, h _ (List.getLast_mem hne)⟩⟩

theorem edged_between {b c : UInt8} (bs : List UInt8) (hb : IsInk b) (hc : IsInk c) :
    Edged (b :: (bs ++ [c])) :=
  ⟨⟨b, rfl, hb⟩, ⟨c, by rw [← List.cons_append, List.getLast?_concat]; rfl, hc⟩⟩

theorem edged_print {j : Json} (h : j.Plain) : Edged j.print := by
  have hdigits : ∀ n, ∀ b ∈ digitBytes n, IsInk b := by
    intro n b hb
    have := isDigitByte_of_mem hb
    simp [isDigitByte] at this
    exact ⟨by omega, by omega⟩
  cases j with
  | null => exact edged_of_forall (by decide) (by unfold print; exact forall_mem_of_all (by decide))
  | bool b => cases b <;> exact edged_of_forall (by decide) (by unfold print; exact forall_mem_of_all (by decide))
  | int n =>
      rw [print]
      cases n.val with
      | ofNat n =>
          rw [Int.ofNat_eq_natCast, printInt_ofNat]
          exact edged_of_forall (digitBytes_ne_nil n) (hdigits n)
      | negSucc n =>
          rw [printInt_negSucc]
          refine edged_of_forall (List.cons_ne_nil _ _) fun b hb => ?_
          rcases List.mem_cons.1 hb with rfl | hb
          · exact ⟨by decide, by decide⟩
          · exact hdigits _ b hb
  | real literal =>
      rw [Plain] at h
      rw [print]
      refine edged_of_forall (fun hnil => h.1 ?_) fun b hb => ?_
      · have hchars : literal.toList = [] := by
          cases hlist : literal.toList with
          | nil => rfl
          | cons c cs =>
              rw [hlist, utf8, List.flatMap_cons] at hnil
              exact absurd (List.append_eq_nil_iff.1 hnil).1 String.utf8EncodeChar_ne_nil
        exact String.toList_inj.1 hchars
      · obtain ⟨c, hc, hbc⟩ := List.mem_flatMap.1 hb
        obtain ⟨hlow, hhigh⟩ := numeric_bounds (h.2 c hc)
        rw [utf8EncodeChar_of_lt hhigh, List.mem_singleton] at hbc
        rw [hbc, IsInk, UInt8.toNat_ofNat_of_lt' (by simpa using hhigh.trans (by decide))]
        exact ⟨hlow, hhigh⟩
  | str s => exact edged_between _ ⟨by decide, by decide⟩ ⟨by decide, by decide⟩
  | arr elements =>
      rw [print]
      exact edged_between _ ⟨by decide, by decide⟩ ⟨by decide, by decide⟩
  | obj members =>
      rw [print]
      exact edged_between _ ⟨by decide, by decide⟩ ⟨by decide, by decide⟩

theorem toNat_of_isInk {c : Char} {b : UInt8} (hb : b ∈ String.utf8EncodeChar c) (hink : IsInk b) :
    32 < c.toNat ∧ c.toNat < 128 := by
  rcases Nat.lt_or_ge c.toNat 128 with hlt | hge
  · rw [utf8EncodeChar_of_lt hlt, List.mem_singleton] at hb
    rw [hb, IsInk, UInt8.toNat_ofNat_of_lt' (by simpa using hlt.trans (by decide))] at hink
    exact hink
  · have := le_utf8EncodeChar hge b hb
    exact absurd hink.2 (by omega)

theorem graphic_text {j : Json} (h : j.Plain) : ∀ c ∈ j.text.toList, 32 ≤ c.toNat := by
  intro c hc
  by_contra hlt
  have hbyte : UInt8.ofNat c.toNat ∈ j.print := by
    rw [← utf8_text]
    refine List.mem_flatMap.2 ⟨c, hc, ?_⟩
    rw [utf8EncodeChar_of_lt (by omega)]
    exact List.mem_singleton_self _
  have := graphic_print j h _ hbyte
  rw [UInt8.toNat_ofNat_of_lt' (by simpa using (by omega : c.toNat < 256))] at this
  omega

theorem head_text {j : Json} (h : j.Plain) :
    ∃ c ∈ j.text.toList.head?, 32 < c.toNat ∧ c.toNat < 128 := by
  obtain ⟨b, hb, hink⟩ := (edged_print h).first
  rw [← utf8_text] at hb
  cases hlist : j.text.toList with
  | nil =>
      rw [hlist] at hb
      cases hb
  | cons c cs =>
      refine ⟨c, rfl, toNat_of_isInk ?_ hink⟩
      rw [hlist, utf8, List.flatMap_cons, List.head?_append_of_ne_nil _ String.utf8EncodeChar_ne_nil]
        at hb
      exact List.mem_of_mem_head? hb

theorem getLast_text {j : Json} (h : j.Plain) :
    ∃ c ∈ j.text.toList.getLast?, 32 < c.toNat ∧ c.toNat < 128 := by
  obtain ⟨b, hb, hink⟩ := (edged_print h).last
  rw [← utf8_text] at hb
  rcases List.eq_nil_or_concat j.text.toList with hnil | ⟨cs, c, hlist⟩
  · rw [hnil] at hb
    cases hb
  · rw [List.concat_eq_append] at hlist
    refine ⟨c, by rw [hlist, List.getLast?_concat]; rfl, toNat_of_isInk ?_ hink⟩
    rw [hlist, utf8, List.flatMap_append, List.flatMap_singleton,
      List.getLast?_append_of_ne_nil _ String.utf8EncodeChar_ne_nil] at hb
    exact List.mem_of_getLast? hb

end Json

end Foundation
