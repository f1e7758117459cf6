import Evobase.Foundation.Bounded
import Evobase.Foundation.Outcome

/-!
# Reading integers

The decimal text of a 64-bit integer: a sign or none, then digits. A reader stops at the first
character that is no digit, or where the value leaves the range. An unsigned integer has no minus
sign. A reader of digits that adds each digit in its turn reads the decimal text of every value
of its range (`foldlM_toDigits`).
-/

namespace Foundation

inductive ParseIntError where
  | empty
  | invalidDigit
  | posOverflow
  | negOverflow
deriving DecidableEq, Repr

def ParseIntError.text : ParseIntError → String
  | empty => "cannot parse integer from empty string"
  | invalidDigit => "invalid digit found in string"
  | posOverflow => "number too large to fit in target type"
  | negOverflow => "number too small to fit in target type"

/-- Digits of the decimal system that are added one after another make up the number. -/
theorem foldlM_toDigits {hi lo : Int} {step : Bounded lo hi → Char → Except ParseIntError (Bounded lo hi)}
    (hstep : ∀ (value next : Bounded lo hi) (d : Nat), d < 10 → next.val = value.val * 10 + d →
      step value d.digitChar = .ok next) (hlo : lo ≤ 0) {start : Bounded lo hi}
    (hstart : start.val = 0) (n : Nat) (value : Bounded lo hi) (h : value.val = n) :
    (Nat.toDigits 10 n).foldlM step start = .ok value := by
  induction n using Nat.strongRecOn generalizing value with
  | ind n ih =>
      rw [Nat.toDigits_eq_if (by decide)]
      split_ifs with hlt
      · rw [List.foldlM_cons, hstep start value n hlt (by omega)]
        rfl
      · have hupper := value.upper
        have hprefix := ih (n / 10) (by omega) ⟨(n / 10 : Nat), by omega, by omega⟩ rfl
        rw [List.foldlM_append, hprefix, ok_bind, List.foldlM_cons,
          hstep _ value (n % 10) (Nat.mod_lt n (by decide)) (by simp only; omega)]
        rfl

theorem isDigit_digitChar {d : Nat} (hd : d < 10) : d.digitChar.isDigit = true := by
  interval_cases d <;> rfl

namespace I64

/-- The next digit, added with the sign of the number. -/
def readDigit (sign : Int) (overflow : ParseIntError) (value : I64) (c : Char) :
    Except ParseIntError I64 := do
  rejectIf (c.isDigit = false) .invalidDigit
  okOr overflow (Bounded.ofInt? (value.val * 10 + sign * (c.toNat - '0'.toNat : Nat)))

def readDigits (sign : Int) (overflow : ParseIntError) (digits : List Char) :
    Except ParseIntError I64 :=
  digits.foldlM (readDigit sign overflow) zero

def parse (text : String) : Except ParseIntError I64 :=
  match text.toList with
  | [] => .error .empty
  | ['+'] | ['-'] => .error .invalidDigit
  | '+' :: digits => readDigits 1 .posOverflow digits
  | '-' :: digits => readDigits (-1) .negOverflow digits
  | digits => readDigits 1 .posOverflow digits

/-- Digits are added with the sign of the number, and overflow exactly when the number is out of
range. -/
theorem foldlM_readDigit {sign : Int} (hsign : sign = 1 ∨ sign = -1) {e : ParseIntError}
    {digits : List Char} (hdigits : ∀ c ∈ digits, c.isDigit = true) (value : I64)
    (hvalue : 0 ≤ sign * value.val) :
    digits.foldlM (readDigit sign e) value =
      okOr e (Bounded.ofInt? (sign * Nat.ofDigitChars 10 digits (sign * value.val).toNat)) := by
  induction digits generalizing value with
  | nil =>
      have hval : sign * ((sign * value.val).toNat : Int) = value.val := by
        rw [Int.toNat_of_nonneg hvalue]
        rcases hsign with rfl | rfl <;> omega
      rw [Nat.ofDigitChars_nil, hval, Bounded.ofInt?_val]
      rfl
  | cons c rest ih =>
      have hc := hdigits c List.mem_cons_self
      have hrest : ∀ c ∈ rest, c.isDigit = true := fun d hd => hdigits d (List.mem_cons_of_mem c hd)
      rw [List.foldlM_cons, readDigit, rejectIf_bind_of_not (by simp [hc]), Nat.ofDigitChars_cons]
      generalize hd : c.toNat - '0'.toNat = d
      cases hnext : (Bounded.ofInt? (value.val * 10 + sign * (d : Int)) : Option I64) with
      | some next =>
          have hval := Bounded.ofInt?_eq_some.1 hnext
          have hnonneg : 0 ≤ sign * next.val := by
            rw [hval]
            rcases hsign with rfl | rfl <;> omega
          have htotal : (sign * next.val).toNat = 10 * (sign * value.val).toNat + d := by
            rw [hval]
            rcases hsign with rfl | rfl <;> omega
          change rest.foldlM (readDigit sign e) next = _
          rw [ih hrest next hnonneg, htotal]
      | none =>
          -- The digits that follow move the number further away from zero.
          have hgrows : 10 * (sign * value.val).toNat + d ≤
              Nat.ofDigitChars 10 rest (10 * (sign * value.val).toNat + d) := by
            rw [Nat.ofDigitChars_eq_ofDigitChars_zero]
            exact (Nat.le_mul_of_pos_left _ (Nat.pow_pos (by decide))).trans (Nat.le_add_right _ _)
          have hout := Bounded.ofInt?_eq_none.1 hnext
          have htotal : (Bounded.ofInt? (sign * (Nat.ofDigitChars 10 rest
              (10 * (sign * value.val).toNat + d) : Int)) : Option I64) = none := by
            refine Bounded.ofInt?_eq_none.2 fun hin => hout ?_
            generalize Nat.ofDigitChars 10 rest (10 * (sign * value.val).toNat + d) = total
              at hgrows hin
            rcases hsign with rfl | rfl <;> omega
          rw [htotal]
          rfl

theorem readDigits_eq {sign : Int} (hsign : sign = 1 ∨ sign = -1) {e : ParseIntError}
    {digits : List Char} (hdigits : ∀ c ∈ digits, c.isDigit = true) :
    readDigits sign e digits =
      okOr e (Bounded.ofInt? (sign * Nat.ofDigitChars 10 digits 0)) := by
  have hzero : (sign * zero.val).toNat = 0 := by simp [zero]
  rw [readDigits, foldlM_readDigit hsign hdigits zero (by simp [zero]), hzero]

theorem parse_of_digit {text : String} {c : Char} {rest : List Char}
    (htext : text.toList = c :: rest) (hc : c.isDigit = true) :
    parse text = readDigits 1 .posOverflow (c :: rest) := by
  unfold parse
  rw [htext]
  split
  · contradiction
  · next heq => exact absurd ((List.cons.inj heq).1 ▸ hc) (by decide)
  · next heq => exact absurd ((List.cons.inj heq).1 ▸ hc) (by decide)
  · next heq => exact absurd ((List.cons.inj heq).1 ▸ hc) (by decide)
  · next heq => exact absurd ((List.cons.inj heq).1 ▸ hc) (by decide)
  · rfl

theorem parse_of_minus {text : String} {c : Char} {rest : List Char}
    (htext : text.toList = '-' :: c :: rest) :
    parse text = readDigits (-1) .negOverflow (c :: rest) := by
  unfold parse
  rw [htext]
  rfl

end I64

/-- The text is a number in decimal digits, with a minus sign or without a sign. -/
def Decimal (text : String) (z : Int) : Prop :=
  ∃ digits, digits ≠ [] ∧ (∀ c ∈ digits, c.isDigit = true) ∧
    (text.toList = digits ∧ z = Nat.ofDigitChars 10 digits 0 ∨
      text.toList = '-' :: digits ∧ z = -(Nat.ofDigitChars 10 digits 0 : Int))

def PlusDecimal (text : String) (z : Int) : Prop :=
  ∃ digits, digits ≠ [] ∧ (∀ c ∈ digits, c.isDigit = true) ∧ text.toList = '+' :: digits ∧
    z = Nat.ofDigitChars 10 digits 0

theorem decimal_toString (z : Int) : Decimal (toString z) z := by
  rw [Int.toString_eq_repr, Int.repr_eq_if]
  split
  · refine ⟨Nat.toDigits 10 z.toNat, Nat.toDigits_ne_nil, fun c hc =>
      Nat.isDigit_of_mem_toDigits (by decide) (by decide) hc, .inl ⟨?_, ?_⟩⟩
    · simp
    · rw [Nat.ofDigitChars_ten_toDigits]
      omega
  · refine ⟨Nat.toDigits 10 (-z).toNat, Nat.toDigits_ne_nil, fun c hc =>
      Nat.isDigit_of_mem_toDigits (by decide) (by decide) hc, .inr ⟨?_, ?_⟩⟩
    · simp
    · rw [Nat.ofDigitChars_ten_toDigits]
      omega

namespace I64

theorem parse_decimal {text : String} {z : Int} (h : Decimal text z) :
    ∃ e, (e = .posOverflow ∨ e = .negOverflow) ∧ parse text = okOr e (Bounded.ofInt? z) := by
  obtain ⟨digits, hne, hdigits, hform⟩ := h
  obtain ⟨c, rest, rfl⟩ := List.exists_cons_of_ne_nil hne
  rcases hform with ⟨htext, rfl⟩ | ⟨htext, rfl⟩
  · refine ⟨.posOverflow, .inl rfl, ?_⟩
    rw [parse_of_digit htext (hdigits c List.mem_cons_self), readDigits_eq (.inl rfl) hdigits,
      one_mul]
  · refine ⟨.negOverflow, .inr rfl, ?_⟩
    rw [parse_of_minus htext, readDigits_eq (.inr rfl) hdigits, neg_one_mul]

theorem isDigit_of_foldlM_readDigit {sign : Int} {e : ParseIntError} {digits : List Char}
    {start value : I64} (h : digits.foldlM (readDigit sign e) start = .ok value) :
    ∀ c ∈ digits, c.isDigit = true := by
  induction digits generalizing start with
  | nil => simp
  | cons c rest ih =>
      rw [List.foldlM_cons, bind_eq_ok] at h
      obtain ⟨next, hnext, hrest⟩ := h
      simp only [readDigit, bind_eq_ok, rejectIf_eq_ok, Bool.not_eq_false] at hnext
      rw [List.forall_mem_cons]
      exact ⟨hnext.choose_spec.1, ih hrest⟩

/-- What is read is a decimal number, or a decimal number after a plus sign. -/
theorem parse_eq_ok_iff {text : String} {n : I64} :
    parse text = .ok n ↔ Decimal text n.val ∨ PlusDecimal text n.val := by
  constructor
  · intro h
    unfold parse at h
    split at h
    · cases h
    · cases h
    · cases h
    · next digits hempty htext =>
        have hdigits := isDigit_of_foldlM_readDigit h
        rw [readDigits_eq (.inl rfl) hdigits, okOr_eq_ok, Bounded.ofInt?_eq_some, one_mul] at h
        exact .inr ⟨digits, hempty, hdigits, htext, h⟩
    · next digits hempty htext =>
        have hdigits := isDigit_of_foldlM_readDigit h
        rw [readDigits_eq (.inr rfl) hdigits, okOr_eq_ok, Bounded.ofInt?_eq_some, neg_one_mul] at h
        exact .inl ⟨digits, hempty, hdigits, .inr ⟨htext, h⟩⟩
    · next digits hempty _ _ _ _ =>
        have hdigits := isDigit_of_foldlM_readDigit h
        rw [readDigits_eq (.inl rfl) hdigits, okOr_eq_ok, Bounded.ofInt?_eq_some, one_mul] at h
        exact .inl ⟨_, hempty, hdigits, .inl ⟨rfl, h⟩⟩
  · rintro (h | ⟨digits, hne, hdigits, htext, hval⟩)
    · obtain ⟨e, -, hparse⟩ := parse_decimal h
      rw [hparse, Bounded.ofInt?_val]
      rfl
    · obtain ⟨c, rest, rfl⟩ := List.exists_cons_of_ne_nil hne
      have hread : parse text = readDigits 1 .posOverflow (c :: rest) := by
        unfold parse
        rw [htext]
        rfl
      rw [hread, readDigits_eq (.inl rfl) hdigits, okOr_eq_ok, Bounded.ofInt?_eq_some, one_mul, hval]

theorem parse_toString (value : I64) : parse (toString value.val) = .ok value := by
  obtain ⟨e, -, hparse⟩ := parse_decimal (decimal_toString value.val)
  rw [hparse, Bounded.ofInt?_val]
  rfl

end I64

namespace U64

def readDigit (value : U64) (c : Char) : Except ParseIntError U64 := do
  rejectIf (c.isDigit = false) .invalidDigit
  okOr .posOverflow (Bounded.ofInt? (value.val * 10 + (c.toNat - '0'.toNat : Nat)))

def zero : U64 := ⟨0, by decide, by decide⟩

def parse (text : String) : Except ParseIntError U64 :=
  match text.toList with
  | [] => .error .empty
  | ['+'] | ['-'] => .error .invalidDigit
  | '+' :: digits => digits.foldlM readDigit zero
  | digits => digits.foldlM readDigit zero

theorem readDigit_digitChar {value : U64} {d : Nat} (hd : d < 10) (next : U64)
    (hnext : next.val = value.val * 10 + d) : readDigit value d.digitChar = .ok next := by
  have hval : d.digitChar.toNat - '0'.toNat = d := Nat.toNat_digitChar_sub_48_of_lt_ten hd
  unfold readDigit
  rw [rejectIf_bind_of_not (by simp [isDigit_digitChar hd]), hval, okOr_eq_ok,
    Bounded.ofInt?_eq_some, hnext]

/-- The decimal text of a number is read back. -/
theorem parse_toString (value : U64) : parse (toString value.val) = .ok value := by
  obtain ⟨n, hn⟩ := Int.eq_ofNat_of_zero_le value.lower
  have hdigit : ∀ c ∈ Nat.toDigits 10 n, c.isDigit = true :=
    fun c hc => Nat.isDigit_of_mem_toDigits (by decide) (by decide) hc
  have hlist : (toString value.val).toList = Nat.toDigits 10 n := by
    rw [hn]
    exact Nat.toList_repr
  have hread : (Nat.toDigits 10 n).foldlM readDigit zero = .ok value :=
    foldlM_toDigits (fun _ next _ hd hnext => readDigit_digitChar hd next hnext) (by decide) rfl n
      value hn
  unfold parse
  rw [hlist]
  cases hdigits : Nat.toDigits 10 n with
  | nil => exact absurd hdigits Nat.toDigits_ne_nil
  | cons c digits =>
      rw [hdigits] at hread hdigit
      have hc := hdigit c List.mem_cons_self
      split
      · contradiction
      · next heq => exact absurd ((List.cons.inj heq).1 ▸ hc) (by decide)
      · next heq => exact absurd ((List.cons.inj heq).1 ▸ hc) (by decide)
      · next heq => exact absurd ((List.cons.inj heq).1 ▸ hc) (by decide)
      · exact hread

end U64

end Foundation
