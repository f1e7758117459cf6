import Evobase.Foundation.Json

/-!
# Reading JSON back

A `JsonReader` is a reader of JSON text of which only one thing is known: it reads
the compact text of a value back as that value, up to a bound on the nesting.
`compactReader` is such a reader, for exactly the texts that `print` writes. It
shows that the law can be met, and that two values with the same compact text are
equal.

The reader is followed along the printing, with the rest of the text as a parameter
(`readValue_print`): a value is read, and the rest is left over.
-/

namespace Foundation

/-- A reader of JSON text that stops at a nesting of 127 containers and reads back
what `print` writes. `message` is what it says of a text it does not accept. -/
structure JsonReader where
  parse : List UInt8 → Option Json
  message : List UInt8 → String
  parse_print : ∀ j : Json, j.Exact → j.depth ≤ 127 → parse j.print = some j

namespace Json

def PlainByte (b : UInt8) : Prop := b ≠ 34 ∧ b ≠ 92

theorem ofNat_ne_ofNat {n k : Nat} (hn : n < 256) (hk : k < 256) (h : n ≠ k) :
    UInt8.ofNat n ≠ UInt8.ofNat k := by
  intro heq
  have := congrArg UInt8.toNat heq
  rw [UInt8.toNat_ofNat_of_lt' (by simpa using hn),
    UInt8.toNat_ofNat_of_lt' (by simpa using hk)] at this
  exact h this

theorem plainByte_ofNat {n : Nat} (hn : n < 256) (h34 : n ≠ 34) (h92 : n ≠ 92) :
    PlainByte (.ofNat n) :=
  ⟨ofNat_ne_ofNat hn (by decide) h34, ofNat_ne_ofNat hn (by decide) h92⟩

/-- A character other than the quote and the backslash has no quote and no backslash
among its bytes. -/
theorem plain_utf8EncodeChar {c : Char} (h34 : c.toNat ≠ 34) (h92 : c.toNat ≠ 92) :
    ∀ b ∈ String.utf8EncodeChar c, PlainByte b := by
  have hval : c.val.toNat = c.toNat := rfl
  intro b hb
  unfold String.utf8EncodeChar at hb
  simp only [hval] at hb
  split_ifs at hb with h1 h2 h3
  · obtain rfl := List.mem_singleton.1 hb
    exact plainByte_ofNat (by omega) h34 h92
  · rcases List.mem_cons.1 hb with rfl | hb
    · exact plainByte_ofNat (by omega) (by omega) (by omega)
    · obtain rfl := List.mem_singleton.1 hb
      exact plainByte_ofNat (by omega) (by omega) (by omega)
  · simp only [List.mem_cons, List.not_mem_nil, or_false] at hb
    rcases hb with rfl | rfl | rfl <;>
      exact plainByte_ofNat (by omega) (by omega) (by omega)
  · simp only [List.mem_cons, List.not_mem_nil, or_false] at hb
    rcases hb with rfl | rfl | rfl | rfl <;>
      exact plainByte_ofNat (by omega) (by omega) (by omega)

theorem utf8EncodeChar_of_lt {c : Char} (h : c.toNat < 128) :
    String.utf8EncodeChar c = [.ofNat c.toNat] := by
  have hval : c.val.toNat = c.toNat := rfl
  unfold String.utf8EncodeChar
  rw [if_pos (by omega)]
  rfl

theorem hexDigit_plain : ∀ n, n < 16 → PlainByte (hexDigit n) := by
  unfold PlainByte
  decide

/-- An escaped character is a backslash, one more byte and plain bytes; every other
character is plain bytes. -/
theorem escape_shape (c : Char) :
    (∃ b tail, escape c = 92 :: b :: tail ∧ ∀ x ∈ tail, PlainByte x) ∨
      ∀ b ∈ escape c, PlainByte b := by
  unfold escape
  split_ifs with h1 h2 h3 h4 h5 h6 h7 h8
  · exact .inl ⟨34, [], rfl, by simp⟩
  · exact .inl ⟨92, [], rfl, by simp⟩
  · exact .inl ⟨98, [], rfl, by simp⟩
  · exact .inl ⟨116, [], rfl, by simp⟩
  · exact .inl ⟨110, [], rfl, by simp⟩
  · exact .inl ⟨102, [], rfl, by simp⟩
  · exact .inl ⟨114, [], rfl, by simp⟩
  · refine .inl ⟨117, _, rfl, ?_⟩
    simp only [List.mem_cons, List.not_mem_nil, or_false]
    rintro x (rfl | rfl | rfl | rfl)
    · exact ⟨by decide, by decide⟩
    · exact ⟨by decide, by decide⟩
    · exact hexDigit_plain _ (by omega)
    · exact hexDigit_plain _ (by omega)
  · exact .inr (plain_utf8EncodeChar h1 h2)

def hexValue (b : UInt8) : Nat := if b.toNat < 58 then b.toNat - 48 else b.toNat - 87

def unescape (b : UInt8) : UInt8 :=
  if b = 98 then 8 else if b = 116 then 9 else if b = 110 then 10
  else if b = 102 then 12 else if b = 114 then 13 else b

/-- The bytes of a string up to its closing quote, and the text after it. -/
def readBody : List UInt8 → Option (List UInt8 × List UInt8)
  | [] => none
  | b :: rest =>
      if b = 34 then some ([], rest)
      else if b = 92 then
        match rest with
        | [] => none
        | e :: rest =>
            if e = 117 then
              match rest with
              | _ :: _ :: h :: l :: rest =>
                  (readBody rest).map fun p => (.ofNat (16 * hexValue h + hexValue l) :: p.1, p.2)
              | _ => none
            else (readBody rest).map fun p => (unescape e :: p.1, p.2)
      else (readBody rest).map fun p => (b :: p.1, p.2)

def stringOfBytes (bs : List UInt8) : Option String := String.fromUTF8? bs.toByteArray

def readString (bs : List UInt8) : Option (String × List UInt8) :=
  (readBody bs).bind fun p => (stringOfBytes p.1).map fun s => (s, p.2)

def digitsValue (ds : List UInt8) : Nat := ds.foldl (fun n d => 10 * n + (d.toNat - 48)) 0

def isDigitByte (b : UInt8) : Bool := 48 ≤ b.toNat && b.toNat ≤ 57

/-- An integer with an optional sign. -/
def readInt (bs : List UInt8) : Option (Json × List UInt8) :=
  match bs with
  | 45 :: rest =>
      (Bounded.ofInt? (-(digitsValue (rest.takeWhile isDigitByte) : Int))).map fun n =>
        (.int n, rest.dropWhile isDigitByte)
  | bs =>
      (Bounded.ofInt? (digitsValue (bs.takeWhile isDigitByte) : Int)).map fun n =>
        (.int n, bs.dropWhile isDigitByte)

/-- The text after the separator before an element. -/
def skipSeparator (first : Bool) (bs : List UInt8) : Option (List UInt8) :=
  match first, bs with
  | true, bs => some bs
  | false, 44 :: rest => some rest
  | false, _ => none

mutual
/-- A value at the start of a text, and the text after it. -/
def readValue : Nat → List UInt8 → Option (Json × List UInt8)
  | 0, _ => none
  | _, [] => none
  | fuel + 1, b :: rest =>
      if b = 34 then (readString rest).map fun p => (.str p.1, p.2)
      else if b = 91 then (readElements fuel true rest).map fun p => (.arr p.1, p.2)
      else if b = 123 then (readMembers fuel true rest).map fun p => (.obj p.1, p.2)
      else if b = 110 then some (.null, rest.drop 3)
      else if b = 116 then some (.bool true, rest.drop 3)
      else if b = 102 then some (.bool false, rest.drop 4)
      else readInt (b :: rest)

/-- The elements of an array up to its closing bracket. -/
def readElements : Nat → Bool → List UInt8 → Option (List Json × List UInt8)
  | 0, _, _ => none
  | fuel + 1, first, bs =>
      if bs.head? = some 93 then some ([], bs.tail)
      else do
        let bs ← skipSeparator first bs
        let p ← readValue fuel bs
        let q ← readElements fuel false p.2
        some (p.1 :: q.1, q.2)

/-- The members of an object up to its closing brace. -/
def readMembers : Nat → Bool → List UInt8 → Option (List (String × Json) × List UInt8)
  | 0, _, _ => none
  | fuel + 1, first, bs =>
      if bs.head? = some 125 then some ([], bs.tail)
      else do
        let bs ← skipSeparator first bs
        let name ← readString bs.tail
        let p ← readValue fuel name.2.tail
        let q ← readMembers fuel false p.2
        some ((name.1, p.1) :: q.1, q.2)
end

theorem readBody_plain {bs : List UInt8} (h : ∀ b ∈ bs, PlainByte b) (rest : List UInt8) :
    readBody (bs ++ rest) = (readBody rest).map fun p => (bs ++ p.1, p.2) := by
  induction bs with
  | nil => simp
  | cons b bs ih =>
      obtain ⟨h34, h92⟩ := h b (by simp)
      rw [List.cons_append, readBody.eq_def]
      simp only [h34, h92, if_false]
      rw [ih fun x hx => h x (by simp [hx])]
      simp [Option.map_map, Function.comp_def]

theorem hexValue_hexDigit : ∀ n, n < 16 → hexValue (hexDigit n) = n := by decide

/-- One character of a string is read back as its UTF-8 bytes. -/
theorem readBody_escape (c : Char) (rest : List UInt8) :
    readBody (escape c ++ rest) =
      (readBody rest).map fun p => (String.utf8EncodeChar c ++ p.1, p.2) := by
  have letter : ∀ e : UInt8, e ≠ 117 → c.toNat < 128 → unescape e = .ofNat c.toNat →
      readBody ([92, e] ++ rest) =
        (readBody rest).map fun p => (String.utf8EncodeChar c ++ p.1, p.2) := by
    intro e he hc hval
    rw [utf8EncodeChar_of_lt hc, List.cons_append, readBody.eq_def]
    simp [he, hval]
  unfold escape
  split_ifs with h1 h2 h3 h4 h5 h6 h7 h8
  · exact letter 34 (by decide) (by omega) (by rw [h1]; rfl)
  · exact letter 92 (by decide) (by omega) (by rw [h2]; rfl)
  · exact letter 98 (by decide) (by omega) (by rw [h3]; rfl)
  · exact letter 116 (by decide) (by omega) (by rw [h4]; rfl)
  · exact letter 110 (by decide) (by omega) (by rw [h5]; rfl)
  · exact letter 102 (by decide) (by omega) (by rw [h6]; rfl)
  · exact letter 114 (by decide) (by omega) (by rw [h7]; rfl)
  · have hhigh : hexValue (hexDigit (c.toNat / 16)) = c.toNat / 16 :=
      hexValue_hexDigit _ (by omega)
    have hlow : hexValue (hexDigit (c.toNat % 16)) = c.toNat % 16 :=
      hexValue_hexDigit _ (by omega)
    rw [utf8EncodeChar_of_lt (by omega), List.cons_append, readBody.eq_def]
    simp [hhigh, hlow, Nat.div_add_mod]
  · exact readBody_plain (plain_utf8EncodeChar h1 h2) rest

theorem readBody_printed (cs : List Char) (rest : List UInt8) :
    readBody (cs.flatMap escape ++ 34 :: rest) = some (utf8 cs, rest) := by
  induction cs with
  | nil => rw [List.flatMap_nil, List.nil_append, readBody.eq_def]; simp [utf8]
  | cons c cs ih =>
      rw [List.flatMap_cons, List.append_assoc, readBody_escape, ih]
      simp [utf8]

theorem stringOfBytes_utf8 (s : String) : stringOfBytes (utf8 s.toList) = some s := by
  have hbytes : (utf8 s.toList).toByteArray = s.toByteArray :=
    (String.utf8Encode_toList : s.toList.utf8Encode = s.toByteArray)
  rw [stringOfBytes, hbytes, String.fromUTF8?, dif_pos s.isValidUTF8]
  rfl

theorem readString_printed (s : String) (rest : List UInt8) :
    readString (s.toList.flatMap escape ++ 34 :: rest) = some (s, rest) := by
  simp [readString, readBody_printed, stringOfBytes_utf8]

def digitBytes (n : Nat) : List UInt8 := utf8 (Nat.toDigits 10 n)

def NoDigitHead (rest : List UInt8) : Prop := ∀ b ∈ rest.head?, isDigitByte b = false

theorem isDigit_lt {c : Char} (h : c.isDigit = true) : 48 ≤ c.toNat ∧ c.toNat ≤ 57 := by
  simp only [Char.isDigit, Bool.and_eq_true, decide_eq_true_eq, UInt32.le_iff_toNat_le,
    ge_iff_le] at h
  exact h

theorem digitBytes_eq_map (n : Nat) :
    digitBytes n = (Nat.toDigits 10 n).map fun c => .ofNat c.toNat := by
  have general : ∀ cs : List Char, (∀ c ∈ cs, c.isDigit = true) →
      utf8 cs = cs.map fun c => UInt8.ofNat c.toNat := by
    intro cs hcs
    induction cs with
    | nil => rfl
    | cons c cs ih =>
        have hc := isDigit_lt (hcs c (by simp))
        have hrest := ih fun d hd => hcs d (by simp [hd])
        simp only [utf8, List.flatMap_cons] at hrest ⊢
        rw [utf8EncodeChar_of_lt (by omega), hrest]
        rfl
  exact general _ fun c hc => Nat.isDigit_of_mem_toDigits (by decide) (by decide) hc

theorem isDigitByte_of_mem {n : Nat} {b : UInt8} (h : b ∈ digitBytes n) :
    isDigitByte b = true := by
  rw [digitBytes_eq_map, List.mem_map] at h
  obtain ⟨c, hc, rfl⟩ := h
  obtain ⟨hlow, hhigh⟩ := isDigit_lt
    (Nat.isDigit_of_mem_toDigits (by decide) (by decide) hc)
  have hsmall : c.toNat < UInt8.size := by
    rw [show UInt8.size = 256 from rfl]
    omega
  rw [isDigitByte, UInt8.toNat_ofNat_of_lt' hsmall]
  simp [hlow, hhigh]

theorem digitBytes_ne_nil (n : Nat) : digitBytes n ≠ [] := by
  simp [digitBytes_eq_map]

theorem digitsValue_digitBytes (n : Nat) : digitsValue (digitBytes n) = n := by
  induction n using Nat.strong_induction_on with
  | _ n ih =>
      have digit : ∀ d, d < 10 → (UInt8.ofNat (Nat.digitChar d).toNat).toNat - 48 = d := by
        decide
      have single : ∀ d, d < 10 →
          digitsValue ([Nat.digitChar d].map fun c => .ofNat c.toNat) = d := by
        decide
      rw [digitBytes_eq_map, Nat.toDigits_eq_if (by decide)]
      split_ifs with hn
      · exact single n hn
      · have hlow := digit (n % 10) (Nat.mod_lt _ (by decide))
        have hhigh := ih (n / 10) (by omega)
        rw [digitBytes_eq_map] at hhigh
        simp only [digitsValue, List.map_append, List.foldl_append] at hhigh ⊢
        rw [hhigh]
        simp only [List.map_cons, List.map_nil, List.foldl_cons, List.foldl_nil, hlow]
        omega

theorem takeDigits_append {n : Nat} {rest : List UInt8} (h : NoDigitHead rest) :
    (digitBytes n ++ rest).takeWhile isDigitByte = digitBytes n ∧
      (digitBytes n ++ rest).dropWhile isDigitByte = rest := by
  have hall : ∀ b ∈ digitBytes n, isDigitByte b = true := fun b hb => isDigitByte_of_mem hb
  rw [List.takeWhile_append_of_pos hall, List.dropWhile_append_of_pos hall]
  cases rest with
  | nil => simp
  | cons b rest =>
      have hb : isDigitByte b = false := h b (by simp)
      simp [hb]

theorem printInt_ofNat (n : Nat) : printInt n = digitBytes n := by
  rw [printInt, digitBytes, ← Nat.toList_repr]
  rfl

theorem printInt_negSucc (n : Nat) : printInt (Int.negSucc n) = 45 :: digitBytes (n + 1) := by
  rw [printInt, digitBytes, ← Nat.toList_repr]
  change utf8 ("-" ++ Nat.repr (n + 1)).toList = _
  rw [String.toList_append]
  rfl

theorem readInt_print (n : JsonInt) {rest : List UInt8} (h : NoDigitHead rest) :
    readInt (printInt n.val ++ rest) = some (.int n, rest) := by
  obtain ⟨val, lower, upper⟩ := n
  cases val with
  | ofNat m =>
      obtain ⟨htake, hdrop⟩ := takeDigits_append (n := m) h
      obtain ⟨b, tail, hcons⟩ := List.exists_cons_of_ne_nil (digitBytes_ne_nil m)
      have hb : b ≠ 45 := by
        rintro rfl
        have := isDigitByte_of_mem (n := m) (b := 45) (by simp [hcons])
        exact absurd this (by decide)
      have hval : Bounded.ofInt? (m : Int) = some (⟨m, lower, upper⟩ : JsonInt) :=
        Bounded.ofInt?_eq_some.2 rfl
      change readInt (printInt m ++ rest) = _
      rw [printInt_ofNat]
      unfold readInt
      split
      · next heq =>
          rw [hcons] at heq
          exact absurd (List.cons.inj heq).1 hb
      · rw [htake, hdrop, digitsValue_digitBytes, hval]
        rfl
  | negSucc m =>
      obtain ⟨htake, hdrop⟩ := takeDigits_append (n := m + 1) h
      have hval : Bounded.ofInt? (-((m + 1 : Nat) : Int)) =
          some (⟨Int.negSucc m, lower, upper⟩ : JsonInt) := Bounded.ofInt?_eq_some.2 rfl
      change readInt (printInt (Int.negSucc m) ++ rest) = _
      rw [printInt_negSucc, List.cons_append, readInt, htake, hdrop, digitsValue_digitBytes,
        hval]
      rfl

theorem printInt_head (n : JsonInt) :
    ∃ b tail, printInt n.val = b :: tail ∧ (b = 45 ∨ isDigitByte b = true) := by
  obtain ⟨val, lower, upper⟩ := n
  cases val with
  | ofNat m =>
      obtain ⟨b, tail, hcons⟩ := List.exists_cons_of_ne_nil (digitBytes_ne_nil m)
      refine ⟨b, tail, ?_, .inr (isDigitByte_of_mem (n := m) (by simp [hcons]))⟩
      exact (printInt_ofNat m).trans hcons
  | negSucc m => exact ⟨45, _, printInt_negSucc m, .inl rfl⟩

mutual
/-- The steps that reading a value takes. -/
def weight : Json → Nat
  | .arr elements => 1 + weightElements elements
  | .obj members => 1 + weightMembers members
  | _ => 1

def weightElements : List Json → Nat
  | [] => 1
  | j :: rest => 1 + weight j + weightElements rest

/-- The steps that reading the members of an object takes. -/
def weightMembers : List (String × Json) → Nat
  | [] => 1
  | (_, j) :: rest => 1 + weight j + weightMembers rest
end

theorem print_head {j : Json} (h : j.Exact) :
    ∃ b tail, print j = b :: tail ∧ b ≠ 93 ∧ b ≠ 125 := by
  cases j with
  | null => exact ⟨110, _, rfl, by decide, by decide⟩
  | bool b => cases b <;> exact ⟨_, _, rfl, by decide, by decide⟩
  | int n =>
      obtain ⟨b, tail, hcons, hb⟩ := printInt_head n
      refine ⟨b, tail, by rw [print, hcons], ?_, ?_⟩ <;>
        rintro rfl <;> rcases hb with hb | hb <;> exact absurd hb (by decide)
  | real s => exact absurd h (by simp [Exact])
  | str s => exact ⟨34, _, by rw [print, printString], by decide, by decide⟩
  | arr elements => exact ⟨91, _, by rw [print], by decide, by decide⟩
  | obj members => exact ⟨123, _, by rw [print], by decide, by decide⟩

theorem noDigitHead_cons {b : UInt8} (h : isDigitByte b = false) (rest : List UInt8) :
    NoDigitHead (b :: rest) := by
  intro c hc
  obtain rfl : b = c := by simpa using hc
  exact h

theorem noDigitHead_elements (js : List Json) (rest : List UInt8) :
    NoDigitHead (printElements false js ++ 93 :: rest) := by
  cases js <;> exact noDigitHead_cons (by decide) _

theorem noDigitHead_members (ms : List (String × Json)) (rest : List UInt8) :
    NoDigitHead (printMembers false ms ++ 125 :: rest) := by
  cases ms <;> exact noDigitHead_cons (by decide) _

theorem readValue_int (n : JsonInt) (fuel : Nat) {rest : List UInt8} (h : NoDigitHead rest) :
    readValue (fuel + 1) (printInt n.val ++ rest) = some (.int n, rest) := by
  obtain ⟨b, tail, hcons, hb⟩ := printInt_head n
  have hne : ∀ k : UInt8, k ≠ 45 → isDigitByte k = false → b ≠ k := by
    rintro k h45 hk rfl
    rcases hb with hb | hb
    · exact h45 hb
    · rw [hk] at hb
      exact absurd hb (by decide)
  rw [← readInt_print n h, hcons, List.cons_append, readValue]
  rw [if_neg (hne 34 (by decide) (by decide)), if_neg (hne 91 (by decide) (by decide)),
    if_neg (hne 123 (by decide) (by decide)), if_neg (hne 110 (by decide) (by decide)),
    if_neg (hne 116 (by decide) (by decide)), if_neg (hne 102 (by decide) (by decide))]

mutual
theorem readValue_print : ∀ (j : Json) (fuel : Nat) (rest : List UInt8), j.Exact →
    weight j ≤ fuel → NoDigitHead rest → readValue fuel (print j ++ rest) = some (j, rest)
  | j, 0, _, _, hfuel, _ => by cases j <;> simp [weight] at hfuel
  | .null, fuel + 1, rest, _, _, _ => by simp [print, utf8, readValue, String.utf8EncodeChar]
  | .bool true, fuel + 1, rest, _, _, _ => by
      simp [print, utf8, readValue, String.utf8EncodeChar]
  | .bool false, fuel + 1, rest, _, _, _ => by
      simp [print, utf8, readValue, String.utf8EncodeChar]
  | .int n, fuel + 1, rest, _, _, hrest => by
      rw [print]
      exact readValue_int n fuel hrest
  | .real s, fuel + 1, rest, hexact, _, _ => by simp [Exact] at hexact
  | .str s, fuel + 1, rest, _, _, _ => by
      rw [print, printString, List.cons_append, readValue, if_pos rfl, List.append_assoc,
        List.singleton_append, readString_printed]
      rfl
  | .arr elements, fuel + 1, rest, hexact, hfuel, _ => by
      have helements := readElements_print elements true fuel rest (by simpa [Exact] using hexact)
        (by simp only [weight] at hfuel; omega)
      rw [print, List.cons_append, readValue, if_neg (by decide), if_pos rfl,
        List.append_assoc, List.singleton_append, helements]
      rfl
  | .obj members, fuel + 1, rest, hexact, hfuel, _ => by
      have hmembers := readMembers_print members true fuel rest (by simpa [Exact] using hexact)
        (by simp only [weight] at hfuel; omega)
      rw [print, List.cons_append, readValue, if_neg (by decide), if_neg (by decide),
        if_pos rfl, List.append_assoc, List.singleton_append, hmembers]
      rfl

theorem readElements_print : ∀ (js : List Json) (first : Bool) (fuel : Nat)
    (rest : List UInt8), ExactElements js → weightElements js ≤ fuel →
    readElements fuel first (printElements first js ++ 93 :: rest) = some (js, rest)
  | js, _, 0, _, _, hfuel => by cases js <;> simp [weightElements] at hfuel
  | [], first, fuel + 1, rest, _, _ => by simp [printElements, readElements]
  | j :: js, first, fuel + 1, rest, hexact, hfuel => by
      simp only [weightElements] at hfuel
      have hj := readValue_print j fuel (printElements false js ++ 93 :: rest) hexact.1
        (by omega) (noDigitHead_elements js rest)
      have hjs := readElements_print js false fuel rest hexact.2 (by omega)
      obtain ⟨b, tail, hcons, hb, _⟩ := print_head hexact.1
      have hskip : skipSeparator first (printElements first (j :: js) ++ 93 :: rest) =
          some (print j ++ (printElements false js ++ 93 :: rest)) := by
        cases first <;> simp [printElements, separator, skipSeparator]
      have hhead : (printElements first (j :: js) ++ 93 :: rest).head? ≠ some 93 := by
        cases first <;> simp [printElements, separator, hcons, hb]
      rw [readElements, if_neg hhead, hskip]
      simp [hj, hjs]

theorem readMembers_print : ∀ (ms : List (String × Json)) (first : Bool) (fuel : Nat)
    (rest : List UInt8), ExactMembers ms → weightMembers ms ≤ fuel →
    readMembers fuel first (printMembers first ms ++ 125 :: rest) = some (ms, rest)
  | ms, _, 0, _, _, hfuel => by cases ms <;> simp [weightMembers] at hfuel
  | [], first, fuel + 1, rest, _, _ => by simp [printMembers, readMembers]
  | (name, j) :: ms, first, fuel + 1, rest, hexact, hfuel => by
      simp only [weightMembers] at hfuel
      have hj := readValue_print j fuel (printMembers false ms ++ 125 :: rest) hexact.1
        (by omega) (noDigitHead_members ms rest)
      have hms := readMembers_print ms false fuel rest hexact.2 (by omega)
      have hskip : skipSeparator first (printMembers first ((name, j) :: ms) ++ 125 :: rest) =
          some (34 :: (name.toList.flatMap escape ++ 34 :: 58 ::
            (print j ++ (printMembers false ms ++ 125 :: rest)))) := by
        cases first <;> simp [printMembers, separator, skipSeparator, printString]
      have hhead : (printMembers first ((name, j) :: ms) ++ 125 :: rest).head? ≠ some 125 := by
        cases first <;> simp [printMembers, separator, printString]
      rw [readMembers, if_neg hhead, hskip]
      simp [readString_printed, hj, hms]
end

mutual
theorem weight_le : ∀ j : Json, j.Exact → weight j ≤ 2 * (print j).length
  | .null, _ => by simp [weight, print, utf8, String.utf8EncodeChar]
  | .bool true, _ => by simp [weight, print, utf8, String.utf8EncodeChar]
  | .bool false, _ => by simp [weight, print, utf8, String.utf8EncodeChar]
  | .int n, h => by
      obtain ⟨b, tail, hcons, _⟩ := print_head h
      simp only [weight, hcons, List.length_cons]
      omega
  | .real _, h => by simp [Exact] at h
  | .str s, _ => by simp only [weight, print, printString, List.length_cons]; omega
  | .arr elements, h => by
      have := weightElements_le elements true (by simpa [Exact] using h)
      simp only [weight, print, List.length_cons, List.length_append, if_true] at this ⊢
      omega
  | .obj members, h => by
      have := weightMembers_le members true (by simpa [Exact] using h)
      simp only [weight, print, List.length_cons, List.length_append]
      omega

theorem weightElements_le : ∀ (js : List Json) (first : Bool), ExactElements js →
    weightElements js ≤ 2 * (printElements first js).length + (if first then 2 else 1)
  | [], first, _ => by cases first <;> simp [weightElements]
  | j :: js, first, h => by
      have hj := weight_le j h.1
      have hjs := weightElements_le js false h.2
      simp only [weightElements, printElements, List.length_append]
      cases first <;> simp [separator] at hjs ⊢ <;> omega

theorem weightMembers_le : ∀ (ms : List (String × Json)) (first : Bool), ExactMembers ms →
    weightMembers ms ≤ 2 * (printMembers first ms).length + 2
  | [], _, _ => by simp [weightMembers]
  | (name, j) :: ms, first, h => by
      have := weight_le j h.1
      have := weightMembers_le ms false h.2
      simp only [weightMembers, printMembers, printString, List.length_append, List.length_cons]
      omega
end

def readAll (bs : List UInt8) : Option Json :=
  (readValue (2 * bs.length) bs).bind fun p => if p.2 = [] then some p.1 else none

theorem readAll_print {j : Json} (h : j.Exact) : readAll j.print = some j := by
  have hread := readValue_print j (2 * j.print.length) [] h (weight_le j h) (by simp [NoDigitHead])
  rw [List.append_nil] at hread
  simp [readAll, hread]

theorem print_injective {j k : Json} (hj : j.Exact) (hk : k.Exact) (h : j.print = k.print) :
    j = k := by
  have hread := readAll_print hj
  rw [h, readAll_print hk] at hread
  exact (Option.some.inj hread).symm

theorem utf8_append (xs ys : List Char) : utf8 (xs ++ ys) = utf8 xs ++ utf8 ys := List.flatMap_append

def IsText (bs : List UInt8) : Prop := ∃ s : String, bs = utf8 s.toList

theorem isText_utf8 (cs : List Char) : IsText (utf8 cs) := ⟨.ofList cs, by rw [String.toList_ofList]⟩

theorem IsText.append {xs ys : List UInt8} (hx : IsText xs) (hy : IsText ys) : IsText (xs ++ ys) := by
  obtain ⟨s, rfl⟩ := hx
  obtain ⟨t, rfl⟩ := hy
  exact ⟨s ++ t, by rw [String.toList_append, utf8, utf8, utf8, List.flatMap_append]⟩

theorem isText_ascii (bs : List UInt8) (h : bs.all (fun b => b.toNat < 128) = true) :
    IsText bs := by
  induction bs with
  | nil => exact isText_utf8 []
  | cons b bs ih =>
      obtain ⟨hb, hbs⟩ : b.toNat < 128 ∧ bs.all (fun b => b.toNat < 128) = true := by
        simpa using h
      have hchar : utf8 [Char.ofNat b.toNat] = [b] := by
        have hnat : (Char.ofNat b.toNat).toNat = b.toNat := by
          rw [Char.ofNat, dif_pos (.inl (by omega))]
          rfl
        rw [utf8, List.flatMap_singleton, utf8EncodeChar_of_lt (by omega), hnat, UInt8.ofNat_toNat]
      have hhead : IsText [b] := hchar ▸ isText_utf8 _
      exact hhead.append (ih hbs)

theorem isText_escape (c : Char) : IsText (escape c) := by
  unfold escape
  split_ifs
  iterate 7 exact isText_ascii _ (by decide)
  · refine isText_ascii _ ?_
    have hhex : ∀ n, n < 16 → (hexDigit n).toNat < 128 := by
      decide
    rw [List.all_eq_true]
    simp only [List.mem_cons, List.not_mem_nil, or_false, decide_eq_true_eq]
    rintro b (rfl | rfl | rfl | rfl | rfl | rfl)
    iterate 4 decide
    · exact hhex _ (by omega)
    · exact hhex _ (by omega)
  · exact ⟨.singleton c, by simp [utf8]⟩

theorem isText_printString (s : String) : IsText (printString s) := by
  have hbody : ∀ cs : List Char, IsText (cs.flatMap escape) := by
    intro cs
    induction cs with
    | nil => exact isText_utf8 []
    | cons c cs ih => exact (isText_escape c).append ih
  have hquote : IsText [34] := isText_ascii _ (by decide)
  exact hquote.append ((hbody _).append hquote)

theorem isText_separator (first : Bool) : IsText (separator first) := by
  cases first <;> exact isText_ascii _ (by decide)

mutual
theorem isText_print : ∀ j : Json, IsText j.print
  | .null | .bool true | .bool false | .int _ | .real _ => isText_utf8 _
  | .str s => isText_printString s
  | .arr elements =>
      (isText_ascii [91] (by decide)).append ((isText_printElements true elements).append
        (isText_ascii [93] (by decide)))
  | .obj members =>
      (isText_ascii [123] (by decide)).append ((isText_printMembers true members).append
        (isText_ascii [125] (by decide)))

theorem isText_printElements (first : Bool) : ∀ js : List Json, IsText (printElements first js)
  | [] => isText_utf8 []
  | j :: rest =>
      ((isText_separator first).append (isText_print j)).append (isText_printElements false rest)

theorem isText_printMembers (first : Bool) :
    ∀ ms : List (String × Json), IsText (printMembers first ms)
  | [] => isText_utf8 []
  | (name, j) :: rest =>
      (((isText_separator first).append (isText_printString name)).append
        ((isText_ascii [58] (by decide)).append (isText_print j))).append
          (isText_printMembers false rest)
end

theorem IsText.stringOfBytes {bs : List UInt8} (h : IsText bs) :
    ∃ s, Json.stringOfBytes bs = some s ∧ utf8 s.toList = bs := by
  obtain ⟨s, rfl⟩ := h
  exact ⟨s, stringOfBytes_utf8 s, rfl⟩

def text (j : Json) : String := (stringOfBytes j.print).getD ""

theorem stringOfBytes_print (j : Json) : stringOfBytes j.print = some j.text := by
  obtain ⟨s, hs, -⟩ := (isText_print j).stringOfBytes
  rw [text, hs]
  rfl

@[simp] theorem utf8_text (j : Json) : utf8 j.text.toList = j.print := by
  obtain ⟨s, hs, hbytes⟩ := (isText_print j).stringOfBytes
  rw [text, hs]
  exact hbytes

theorem utf8ByteSize_text (j : Json) : j.text.utf8ByteSize = j.print.length := by
  have hbytes : (utf8 j.text.toList).toByteArray = j.text.toByteArray :=
    (String.utf8Encode_toList : j.text.toList.utf8Encode = j.text.toByteArray)
  rw [← utf8_text j, ← List.size_toByteArray, hbytes]
  rfl

theorem text_injective {j k : Json} (hj : j.Exact) (hk : k.Exact) (h : j.text = k.text) : j = k := by
  refine print_injective hj hk ?_
  rw [← utf8_text j, h, utf8_text]

end Json

/-- A reader of the texts that `print` writes. -/
def compactReader : JsonReader where
  parse := Json.readAll
  message _ := "invalid text"
  parse_print _ hexact _ := Json.readAll_print hexact

end Foundation
