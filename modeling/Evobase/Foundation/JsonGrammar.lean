import Evobase.Foundation.JsonReader

/-!
# The grammar of JSON documents

A document as it is written: a value with the white space around its tokens, the spelling of
its numbers and the escapes of its strings. `Document.text` is the text of a document, and the
texts of documents are the syntactically valid JSON texts. `skeleton` forgets all that is only
spelling: white space, numbers, literals and the content of strings. The measures of a document
are those of its skeleton, so two documents with one skeleton have the same depth and nodes.
-/

namespace Foundation

namespace JsonText

/-- Insignificant white space. -/
structure Blank where
  bytes : List UInt8
  blank : ∀ b ∈ bytes, b ∈ [32, 9, 10, 13]

structure Digits where
  bytes : List UInt8
  nonempty : bytes ≠ []
  digits : ∀ b ∈ bytes, Json.isDigitByte b = true

inductive Sign where
  | plus
  | minus

def Sign.bytes : Sign → List UInt8
  | .plus => [43]
  | .minus => [45]

/-- An exponent; its letter may be a capital. -/
structure Exponent where
  capital : Bool
  sign : Option Sign
  digits : Digits

def Exponent.bytes (e : Exponent) : List UInt8 :=
  (if e.capital then 69 else 101) :: ((e.sign.map Sign.bytes).getD [] ++ e.digits.bytes)

/-- A number; its whole part has no leading zero. -/
structure Number where
  negative : Bool
  whole : Digits
  leading : whole.bytes.head? = some 48 → whole.bytes = [48]
  fraction : Option Digits
  exponent : Option Exponent

def Number.bytes (n : Number) : List UInt8 :=
  (if n.negative then [45] else []) ++ n.whole.bytes ++
    (n.fraction.map fun digits => 46 :: digits.bytes).getD [] ++
    (n.exponent.map Exponent.bytes).getD []

inductive Literal where
  | null
  | true
  | false

def Literal.bytes : Literal → List UInt8
  | .null => Json.utf8 "null".toList
  | .true => Json.utf8 "true".toList
  | .false => Json.utf8 "false".toList

def isHexByte (b : UInt8) : Bool :=
  Json.isDigitByte b || (65 ≤ b.toNat && b.toNat ≤ 70) || (97 ≤ b.toNat && b.toNat ≤ 102)

/-- A character of a string: itself, a one-letter escape or a code of four digits. -/
inductive Piece where
  | plain (c : Char) (control : 32 ≤ c.toNat) (quote : c.toNat ≠ 34) (backslash : c.toNat ≠ 92)
  | escape (letter : UInt8) (known : letter ∈ [34, 92, 47, 98, 102, 110, 114, 116])
  | code (digits : List UInt8) (four : digits.length = 4)
      (hex : ∀ b ∈ digits, isHexByte b = true)

def Piece.bytes : Piece → List UInt8
  | .plain c _ _ _ => String.utf8EncodeChar c
  | .escape letter _ => [92, letter]
  | .code digits _ _ => 92 :: 117 :: digits

/-- A string between its quotes. -/
def quoted (pieces : List Piece) : List UInt8 := 34 :: (pieces.flatMap Piece.bytes ++ [34])

mutual
/-- A value as it is written. -/
inductive Value where
  | literal (literal : Literal)
  | number (number : Number)
  | string (pieces : List Piece)
  | emptyArr (blank : Blank)
  | arr (elements : Elements)
  | emptyObj (blank : Blank)
  | obj (members : Members)

/-- The elements of an array that has some. -/
inductive Elements where
  | last (before : Blank) (value : Value) (after : Blank)
  | more (before : Blank) (value : Value) (after : Blank) (rest : Elements)

/-- The members of an object that has some. -/
inductive Members where
  | last (before : Blank) (name : List Piece) (named : Blank) (colon : Blank) (value : Value)
      (after : Blank)
  | more (before : Blank) (name : List Piece) (named : Blank) (colon : Blank) (value : Value)
      (after : Blank) (rest : Members)
end

mutual
def Value.text : Value → List UInt8
  | .literal l => l.bytes
  | .number n => n.bytes
  | .string pieces => quoted pieces
  | .emptyArr blank => 91 :: (blank.bytes ++ [93])
  | .arr elements => 91 :: (elements.text ++ [93])
  | .emptyObj blank => 123 :: (blank.bytes ++ [125])
  | .obj members => 123 :: (members.text ++ [125])

def Elements.text : Elements → List UInt8
  | .last before value after => before.bytes ++ (value.text ++ after.bytes)
  | .more before value after rest =>
      before.bytes ++ (value.text ++ (after.bytes ++ 44 :: rest.text))

def Members.text : Members → List UInt8
  | .last before name named colon value after =>
      before.bytes ++ (quoted name ++ (named.bytes ++ 58 :: (colon.bytes ++
        (value.text ++ after.bytes))))
  | .more before name named colon value after rest =>
      before.bytes ++ (quoted name ++ (named.bytes ++ 58 :: (colon.bytes ++
        (value.text ++ (after.bytes ++ 44 :: rest.text)))))
end

mutual
/-- The value with `null` for its numbers and literals and with empty strings. -/
def Value.skeleton : Value → Json
  | .literal _ | .number _ => .null
  | .string _ => .str ""
  | .emptyArr _ => .arr []
  | .arr elements => .arr elements.skeletons
  | .emptyObj _ => .obj []
  | .obj members => .obj members.skeletons

def Elements.skeletons : Elements → List Json
  | .last _ value _ => [value.skeleton]
  | .more _ value _ rest => value.skeleton :: rest.skeletons

def Members.skeletons : Members → List (String × Json)
  | .last _ _ _ _ value _ => [("", value.skeleton)]
  | .more _ _ _ _ value _ rest => ("", value.skeleton) :: rest.skeletons
end

def Value.endsInAtom : Value → Bool
  | .literal _ | .number _ => true
  | _ => false

/-- A document: a value with the white space around it. -/
structure Document where
  before : Blank
  value : Value
  after : Blank

namespace Document

def text (d : Document) : List UInt8 := d.before.bytes ++ (d.value.text ++ d.after.bytes)

def skeleton (d : Document) : Json := d.value.skeleton

def depth (d : Document) : Nat := d.skeleton.depth

/-- The containers, strings, numbers and literals of the document, with its member names. -/
def nodes (d : Document) : Nat := d.skeleton.nodes

end Document

theorem Exponent.mem_bytes {e : Exponent} {b : UInt8} (h : b ∈ e.bytes) :
    Json.isDigitByte b = true ∨ b ∈ [43, 45, 69, 101] := by
  obtain ⟨capital, sign, digits⟩ := e
  rcases List.mem_cons.1 h with rfl | h
  · cases capital <;> simp
  · rcases List.mem_append.1 h with hsign | hdigit
    · cases sign with
      | none => cases hsign
      | some sign => cases sign <;> simp [Sign.bytes] at hsign <;> simp [hsign]
    · exact .inl (digits.digits b hdigit)

theorem Number.mem_bytes {n : Number} {b : UInt8} (h : b ∈ n.bytes) :
    Json.isDigitByte b = true ∨ b ∈ [43, 45, 46, 69, 101] := by
  obtain ⟨negative, whole, leading, fraction, exponent⟩ := n
  simp only [Number.bytes, List.mem_append] at h
  rcases h with ((hsign | hwhole) | hfraction) | hexponent
  · cases negative <;> simp at hsign
    simp [hsign]
  · exact .inl (whole.digits b hwhole)
  · cases fraction with
    | none => cases hfraction
    | some digits =>
        rcases List.mem_cons.1 hfraction with rfl | hdigit
        · simp
        · exact .inl (digits.digits b hdigit)
  · cases exponent with
    | none => cases hexponent
    | some e =>
        rcases e.mem_bytes hexponent with hdigit | hletter
        · exact .inl hdigit
        · simp only [List.mem_cons, List.not_mem_nil, or_false] at hletter ⊢
          tauto

theorem Number.bytes_ne_nil (n : Number) : n.bytes ≠ [] := by
  have hwhole := n.whole.nonempty
  simp [Number.bytes, hwhole]

theorem plainByte_of_isHexByte {b : UInt8} (h : isHexByte b = true) : Json.PlainByte b := by
  have outside : ∀ k : UInt8, isHexByte k = false → b ≠ k := by
    rintro k hk rfl
    rw [h] at hk
    cases hk
  exact ⟨outside 34 (by decide), outside 92 (by decide)⟩

theorem Piece.shape (p : Piece) :
    (∃ b tail, p.bytes = 92 :: b :: tail ∧ ∀ x ∈ tail, Json.PlainByte x) ∨
      ∀ b ∈ p.bytes, Json.PlainByte b := by
  cases p with
  | plain c control quote backslash => exact .inr (Json.plain_utf8EncodeChar quote backslash)
  | escape letter known => exact .inl ⟨letter, [], rfl, by simp⟩
  | code digits four hex =>
      exact .inl ⟨117, digits, rfl, fun b hb => plainByte_of_isHexByte (hex b hb)⟩

end JsonText

end Foundation
