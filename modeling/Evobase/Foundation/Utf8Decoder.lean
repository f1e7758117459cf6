import Evobase.Foundation.JsonReader

/-!
# A decoder of UTF-8 in chunks

The decoder takes one byte after the other, between characters or within one. Bytes that come in
chunks are decoded like the bytes together, and what it has decoded of the first bytes of a text
is the beginning of the text.
-/

namespace Foundation

/-- The decoder is between characters, or has the bits of a character whose next byte lies between
two bounds and is followed by some more. -/
inductive Utf8State where
  | start
  | within (rest value low high : Nat)
deriving DecidableEq

namespace Utf8State

/-- The first byte of a character. -/
def first (b : Nat) : Option (Option Char × Utf8State) :=
  if b < 0x80 then some (some (.ofNat b), .start)
  else if b < 0xC2 then none
  else if b < 0xE0 then some (none, .within 0 (b - 0xC0) 0x80 0xBF)
  else if b < 0xF0 then
    some (none, .within 1 (b - 0xE0) (if b = 0xE0 then 0xA0 else 0x80)
      (if b = 0xED then 0x9F else 0xBF))
  else if b < 0xF5 then
    some (none, .within 2 (b - 0xF0) (if b = 0xF0 then 0x90 else 0x80)
      (if b = 0xF4 then 0x8F else 0xBF))
  else none

/-- One byte: the character that it ends, if it does, or nothing when it cannot follow. -/
def step (b : UInt8) : Utf8State → Option (Option Char × Utf8State)
  | .start => first b.toNat
  | .within rest value low high =>
      if low ≤ b.toNat ∧ b.toNat ≤ high then
        let value := value * 64 + (b.toNat - 0x80)
        match rest with
        | 0 => some (some (.ofNat value), .start)
        | rest + 1 => some (none, .within rest value 0x80 0xBF)
      else none

/-- The characters of some bytes, and the state after them. -/
def decode (state : Utf8State) : List UInt8 → Option (List Char × Utf8State)
  | [] => some ([], state)
  | b :: bs =>
      match state.step b with
      | none => none
      | some (c, state) => (decode state bs).map fun rest => (c.toList ++ rest.1, rest.2)

variable {state : Utf8State} {bs : List UInt8} {cs : List Char}

theorem decode_append (state : Utf8State) (xs ys : List UInt8) :
    state.decode (xs ++ ys) = (state.decode xs).bind fun front =>
      (front.2.decode ys).map fun rest => (front.1 ++ rest.1, rest.2) := by
  induction xs generalizing state with
  | nil => simp [decode]
  | cons b xs ih =>
      rw [List.cons_append, decode, decode]
      cases state.step b with
      | none => rfl
      | some next =>
          simp only [ih]
          cases next.2.decode xs with
          | none => rfl
          | some front => cases hys : front.2.decode ys <;> simp [hys]

theorem toNat_ofNat_byte {n : Nat} (h : n < 256) : (UInt8.ofNat n).toNat = n :=
  UInt8.toNat_ofNat_of_lt' (by simpa using h)

theorem step_start {n : Nat} (h : n < 256) : start.step (.ofNat n) = first n := by
  rw [step, toNat_ofNat_byte h]

theorem step_last {n value low high : Nat} (hlow : low ≤ n) (hhigh : n ≤ high) (h : n < 256) :
    (within 0 value low high).step (.ofNat n) =
      some (some (.ofNat (value * 64 + (n - 0x80))), .start) := by
  rw [step, toNat_ofNat_byte h, if_pos ⟨hlow, hhigh⟩]

theorem step_inner {n rest value low high : Nat} (hlow : low ≤ n) (hhigh : n ≤ high)
    (h : n < 256) :
    (within (rest + 1) value low high).step (.ofNat n) =
      some (none, .within rest (value * 64 + (n - 0x80)) 0x80 0xBF) := by
  rw [step, toNat_ofNat_byte h, if_pos ⟨hlow, hhigh⟩]

theorem first_one {n : Nat} (h : n < 0x80) : first n = some (some (.ofNat n), .start) := by
  rw [first, if_pos h]

theorem first_two {n : Nat} (hlow : 0xC2 ≤ n) (hhigh : n < 0xE0) :
    first n = some (none, .within 0 (n - 0xC0) 0x80 0xBF) := by
  rw [first, if_neg (by omega), if_neg (by omega), if_pos hhigh]

theorem first_three {n : Nat} (hlow : 0xE0 ≤ n) (hhigh : n < 0xF0) :
    first n = some (none, .within 1 (n - 0xE0) (if n = 0xE0 then 0xA0 else 0x80)
      (if n = 0xED then 0x9F else 0xBF)) := by
  rw [first, if_neg (by omega), if_neg (by omega), if_neg (by omega), if_pos hhigh]

theorem first_four {n : Nat} (hlow : 0xF0 ≤ n) (hhigh : n < 0xF5) :
    first n = some (none, .within 2 (n - 0xF0) (if n = 0xF0 then 0x90 else 0x80)
      (if n = 0xF4 then 0x8F else 0xBF)) := by
  rw [first, if_neg (by omega), if_neg (by omega), if_neg (by omega), if_neg (by omega),
    if_pos hhigh]

/-- The bytes of a character are decoded to the character. -/
theorem decode_char (c : Char) : start.decode (String.utf8EncodeChar c) = some ([c], .start) := by
  have hval : c.val.toNat = c.toNat := rfl
  have hvalid : c.toNat < 0xD800 ∨ 0xDFFF < c.toNat ∧ c.toNat < 0x110000 := c.valid
  unfold String.utf8EncodeChar
  simp only [hval]
  split_ifs with h1 h2 h3
  · rw [decode, step_start (by omega), first_one (by omega), Char.ofNat_toNat]
    rfl
  · have hvalue : (c.toNat / 64 % 32 + 192 - 0xC0) * 64 + (c.toNat % 64 + 128 - 0x80) = c.toNat := by
      omega
    rw [decode, step_start (by omega), first_two (by omega) (by omega)]
    simp only [decode, step_last (show 0x80 ≤ c.toNat % 64 + 128 by omega)
      (show c.toNat % 64 + 128 ≤ 0xBF by omega) (by omega), hvalue, Char.ofNat_toNat]
    rfl
  · have hsecond : (if c.toNat / 4096 % 16 + 224 = 0xE0 then 0xA0 else 0x80) ≤ c.toNat / 64 % 64 + 128 ∧
        c.toNat / 64 % 64 + 128 ≤ if c.toNat / 4096 % 16 + 224 = 0xED then 0x9F else 0xBF := by
      constructor <;> split_ifs <;> omega
    have hvalue : ((c.toNat / 4096 % 16 + 224 - 0xE0) * 64 + (c.toNat / 64 % 64 + 128 - 0x80)) * 64 +
        (c.toNat % 64 + 128 - 0x80) = c.toNat := by
      omega
    rw [decode, step_start (by omega), first_three (by omega) (by omega)]
    simp only [decode, step_inner hsecond.1 hsecond.2 (by omega),
      step_last (show 0x80 ≤ c.toNat % 64 + 128 by omega)
        (show c.toNat % 64 + 128 ≤ 0xBF by omega) (by omega), hvalue, Char.ofNat_toNat]
    rfl
  · have hsecond : (if c.toNat / 262144 % 8 + 240 = 0xF0 then 0x90 else 0x80) ≤
          c.toNat / 4096 % 64 + 128 ∧
        c.toNat / 4096 % 64 + 128 ≤ if c.toNat / 262144 % 8 + 240 = 0xF4 then 0x8F else 0xBF := by
      constructor <;> split_ifs <;> omega
    have hvalue : (((c.toNat / 262144 % 8 + 240 - 0xF0) * 64 + (c.toNat / 4096 % 64 + 128 - 0x80)) * 64 +
        (c.toNat / 64 % 64 + 128 - 0x80)) * 64 + (c.toNat % 64 + 128 - 0x80) = c.toNat := by
      omega
    rw [decode, step_start (by omega), first_four (by omega) (by omega)]
    simp only [decode, step_inner hsecond.1 hsecond.2 (by omega),
      step_inner (show 0x80 ≤ c.toNat / 64 % 64 + 128 by omega)
        (show c.toNat / 64 % 64 + 128 ≤ 0xBF by omega) (by omega),
      step_last (show 0x80 ≤ c.toNat % 64 + 128 by omega)
        (show c.toNat % 64 + 128 ≤ 0xBF by omega) (by omega), hvalue, Char.ofNat_toNat]
    rfl

theorem decode_utf8 (cs : List Char) : start.decode (Json.utf8 cs) = some (cs, .start) := by
  induction cs with
  | nil => rfl
  | cons c cs ih =>
      have hcons : Json.utf8 (c :: cs) = String.utf8EncodeChar c ++ Json.utf8 cs := rfl
      rw [hcons, decode_append, decode_char, Option.bind_some, ih]
      rfl

theorem isSome_of_step {b : UInt8} {c : Option Char} (h : state.step b = some (c, .start)) :
    c.isSome = true := by
  cases state with
  | start =>
      simp only [step, first] at h
      split_ifs at h <;> cases h
      rfl
  | within rest value low high =>
      simp only [step] at h
      split_ifs at h
      cases rest <;> cases h
      rfl

theorem eq_nil_of_decode (h : state.decode bs = some ([], .start)) : bs = [] := by
  induction bs generalizing state with
  | nil => rfl
  | cons b bs ih =>
      exfalso
      rw [decode] at h
      cases hstep : state.step b with
      | none =>
          rw [hstep] at h
          cases h
      | some next =>
          obtain ⟨c, next⟩ := next
          rw [hstep] at h
          obtain ⟨⟨rest, last⟩, hrest, heq⟩ := Option.map_eq_some_iff.1 h
          obtain ⟨hnil, hlast⟩ := Prod.mk.inj heq
          obtain ⟨hc, hrestnil⟩ := List.append_eq_nil_iff.1 hnil
          subst hlast hrestnil
          have hbs := ih hrest
          subst hbs
          obtain ⟨-, hnext⟩ := Prod.mk.inj (Option.some.inj hrest)
          subst hnext
          obtain ⟨c, rfl⟩ := Option.isSome_iff_exists.1 (isSome_of_step hstep)
          cases hc

/-- What is decoded of the first bytes of a text is the beginning of the text, and the bytes of
every beginning that they have are decoded to it. -/
theorem decode_of_isPrefix (h : bs <+: Json.utf8 cs) :
    ∃ front state, start.decode bs = some (front, state) ∧ front <+: cs ∧
      ∀ part, part <+: cs → (Json.utf8 part <+: bs ↔ part <+: front) := by
  obtain ⟨tail, htail⟩ := h
  have hall := decode_utf8 cs
  rw [← htail, decode_append] at hall
  obtain ⟨⟨front, state⟩, hfront, hrest⟩ := Option.bind_eq_some_iff.1 hall
  obtain ⟨⟨rest, last⟩, htaildecode, heq⟩ := Option.map_eq_some_iff.1 hrest
  obtain ⟨hcs, rfl⟩ := Prod.mk.inj heq
  refine ⟨front, state, hfront, ⟨rest, hcs⟩, fun part hpart => ⟨?_, ?_⟩⟩
  · rintro ⟨more, rfl⟩
    rw [decode_append, decode_utf8, Option.bind_some] at hfront
    obtain ⟨r, -, heq⟩ := Option.map_eq_some_iff.1 hfront
    exact ⟨r.1, (Prod.mk.inj heq).1⟩
  · intro hfrontpart
    have hbytes : Json.utf8 part <+: Json.utf8 cs := by
      obtain ⟨more, rfl⟩ := hpart
      exact ⟨Json.utf8 more, (Json.utf8_append part more).symm⟩
    rcases List.prefix_or_prefix_of_prefix hbytes ⟨tail, htail⟩ with hle | hge
    · exact hle
    · -- the bytes of the part are no more than those that have given its characters
      obtain ⟨more, hmore⟩ := hge
      have hpartdecode := decode_utf8 part
      rw [← hmore, decode_append, hfront, Option.bind_some] at hpartdecode
      obtain ⟨⟨r, last⟩, hr, heq⟩ := Option.map_eq_some_iff.1 hpartdecode
      obtain ⟨hpartfront, rfl⟩ := Prod.mk.inj heq
      obtain ⟨gap, rfl⟩ := hfrontpart
      have hnil : r = [] := by
        have hlength := congrArg List.length hpartfront
        simp only [List.length_append] at hlength
        exact List.length_eq_zero_iff.1 (by omega)
      have hmorenil : more = [] := eq_nil_of_decode (hnil ▸ hr)
      rw [← hmore, hmorenil, List.append_nil]

/-- The bytes lack one byte of the text of a part exactly when they have given the others. -/
theorem concat_eq_iff {front part : List Char} {c : Char} {b : UInt8} (h : bs <+: Json.utf8 cs)
    (hdecode : start.decode bs = some (front, state)) (hc : Json.utf8 [c] = [b])
    (hpart : part ++ [c] <+: cs) : bs ++ [b] = Json.utf8 (part ++ [c]) ↔ part = front := by
  obtain ⟨front', state', hdecode', -, hparts⟩ := decode_of_isPrefix h
  obtain ⟨rfl, -⟩ := Prod.mk.inj (Option.some.inj (hdecode'.symm.trans hdecode))
  rw [Json.utf8_append, hc]
  constructor
  · intro heq
    rw [List.append_cancel_right heq, decode_utf8] at hdecode
    exact (Prod.mk.inj (Option.some.inj hdecode)).1
  · rintro rfl
    obtain ⟨extra, rfl⟩ := (hparts part ((List.prefix_append part [c]).trans hpart)).2 List.prefix_rfl
    cases extra with
    | nil => rw [List.append_nil]
    | cons d extra =>
        -- a byte more is the character, and the bytes have not given it
        exfalso
        obtain ⟨tail, htail⟩ := h
        obtain ⟨later, rfl⟩ := hpart
        rw [Json.utf8_append, Json.utf8_append, hc, List.append_assoc, List.append_assoc] at htail
        obtain ⟨rfl, -⟩ := List.cons.inj (List.append_cancel_left htail)
        have hcome := (hparts (part ++ [c]) (List.prefix_append _ _)).1
          ⟨extra, by rw [Json.utf8_append, hc, List.append_assoc]; rfl⟩
        have := hcome.length_le
        simp only [List.length_append, List.length_singleton] at this
        omega

theorem state_eq_start {front part : List Char} {c : Char} {b : UInt8}
    (hdecode : start.decode bs = some (front, state)) (hc : Json.utf8 [c] = [b])
    (h : bs ++ [b] = Json.utf8 (part ++ [c])) : state = .start := by
  rw [Json.utf8_append, hc] at h
  rw [List.append_cancel_right h, decode_utf8] at hdecode
  exact (Prod.mk.inj (Option.some.inj hdecode)).2.symm

end Utf8State

/-- A decoder that is given the bytes of a stream in chunks; a byte order mark at the start of
the stream is no part of the text. -/
structure Utf8Decoder where
  state : Utf8State
  atStart : Bool

namespace Utf8Decoder

def new : Utf8Decoder := ⟨.start, true⟩

def convert (decoder : Utf8Decoder) (chunk : List UInt8) : Option (List Char × Utf8Decoder) :=
  (decoder.state.decode chunk).map fun read =>
    if decoder.atStart then
      match read.1 with
      | [] => ([], ⟨read.2, true⟩)
      | c :: cs => (if c.toNat = 0xFEFF then cs else c :: cs, ⟨read.2, false⟩)
    else (read.1, ⟨read.2, false⟩)

def after (cs : List Char) (state : Utf8State) : Utf8Decoder := ⟨state, cs = []⟩

theorem convert_after {seen cs : List Char} {state next : Utf8State} {chunk : List UInt8}
    (hdecode : state.decode chunk = some (cs, next))
    (hmark : ∀ c ∈ (seen ++ cs).head?, c.toNat ≠ 0xFEFF) :
    (after seen state).convert chunk = some (cs, after (seen ++ cs) next) := by
  rw [convert, after, hdecode, Option.map_some]
  cases seen with
  | cons c seen => simp [after]
  | nil =>
      cases cs with
      | nil => rfl
      | cons c cs =>
          have hc : c.toNat ≠ 0xFEFF := hmark c rfl
          simp [after, hc]

end Utf8Decoder

end Foundation
