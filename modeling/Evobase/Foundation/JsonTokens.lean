import Evobase.Foundation.JsonFields
import Evobase.Foundation.JsonReader
import Evobase.Foundation.Outcome

/-!
# Reading JSON from tokens

`tokensOf` is the token sequence of a value. `readValue` reads a value from the front
of a token sequence by recursive descent and, on demand, stops at the first member name
that its object already has. It reads exactly the token sequences of values, and the
name it stops at is repeated in an object that is open at that place: `RepeatsKey`.

A `JsonTokenizer` is a tokenizer of which only one thing is known: it cuts the compact
text of a value into the tokens of that value.
-/

namespace Foundation

/-- A token of a JSON text. Names and strings are unescaped; `invalid` is where no
token can be cut. -/
inductive Token where
  | null
  | bool (value : Bool)
  | int (value : JsonInt)
  | real (literal : String)
  | str (value : String)
  | openArr
  | closeArr
  | openObj
  | closeObj
  | colon
  | comma
  | invalid
deriving DecidableEq, Repr

namespace Json

/-- The separator before an element: nothing before the first, a comma before the
others. -/
def commaTokens (first : Bool) : List Token := if first then [] else [.comma]

mutual
/-- The tokens of a value. -/
def tokensOf : Json → List Token
  | .null => [.null]
  | .bool b => [.bool b]
  | .int n => [.int n]
  | .real literal => [.real literal]
  | .str s => [.str s]
  | .arr elements => .openArr :: elementTokens true elements
  | .obj members => .openObj :: memberTokens true members

def elementTokens (first : Bool) : List Json → List Token
  | [] => [.closeArr]
  | j :: rest => commaTokens first ++ (tokensOf j ++ elementTokens false rest)

/-- The tokens of the members of an object, up to its end. -/
def memberTokens (first : Bool) : List (String × Json) → List Token
  | [] => [.closeObj]
  | (name, j) :: rest =>
      commaTokens first ++ (.str name :: .colon :: (tokensOf j ++ memberTokens false rest))
end

theorem tokensOf_length_pos (j : Json) : 0 < (tokensOf j).length := by
  cases j <;> simp [tokensOf]

theorem elementTokens_length_pos (first : Bool) (js : List Json) :
    0 < (elementTokens first js).length := by
  cases js with
  | nil => simp [elementTokens]
  | cons j js =>
      have := tokensOf_length_pos j
      simp only [elementTokens, List.length_append]
      omega

theorem memberTokens_length_pos (first : Bool) (ms : List (String × Json)) :
    0 < (memberTokens first ms).length := by
  cases ms <;> simp [memberTokens]

theorem tokensOf_head (j : Json) : (tokensOf j).head? ≠ some .closeArr := by
  cases j <;> simp [tokensOf]

mutual
/-- No object of the value, at any depth, has two members of one name. -/
def UniqueKeys : Json → Prop
  | .arr elements => UniqueElements elements
  | .obj members => (members.map (·.1)).Nodup ∧ UniqueMembers members
  | _ => True

def UniqueElements : List Json → Prop
  | [] => True
  | j :: rest => UniqueKeys j ∧ UniqueElements rest

/-- `UniqueKeys` for every value of a list of members. -/
def UniqueMembers : List (String × Json) → Prop
  | [] => True
  | (_, j) :: rest => UniqueKeys j ∧ UniqueMembers rest
end

theorem uniqueElements_iff {js : List Json} : UniqueElements js ↔ ∀ j ∈ js, UniqueKeys j := by
  induction js with
  | nil => simp [UniqueElements]
  | cons j rest ih => simp [UniqueElements, ih]

theorem uniqueMembers_iff {ms : List (String × Json)} :
    UniqueMembers ms ↔ ∀ m ∈ ms, UniqueKeys m.2 := by
  induction ms with
  | nil => simp [UniqueMembers]
  | cons m rest ih => simp [UniqueMembers, ih]

section Written

variable {α K V : Type}

theorem uniqueKeys_ofList {write : α → Json} {l : List α} (h : ∀ a ∈ l, UniqueKeys (write a)) :
    UniqueKeys (ofList write l) := by
  simpa [ofList, UniqueKeys, uniqueElements_iff] using h

theorem uniqueKeys_ofMap [LinearOrder K] {name : K → String} (hname : Function.Injective name)
    {write : V → Json} {m : OrdMap K V} (h : ∀ v, UniqueKeys (write v)) :
    UniqueKeys (ofMap name write m) := by
  refine ⟨?_, uniqueMembers_iff.2 ?_⟩
  · have hnames : (m.entries.map fun e => (name e.1, write e.2)).map (·.1) = m.keys.map name := by
      simp [OrdMap.keys]
    rw [hnames]
    exact m.keys_nodup.map hname
  · intro member hmem
    obtain ⟨e, -, rfl⟩ := List.mem_map.1 hmem
    exact h e.2

theorem uniqueKeys_ofFields {fields : List (String × Option Json)}
    (hnames : (fields.map (·.1)).Nodup) (h : ∀ f ∈ fields, ∀ j ∈ f.2, UniqueKeys j) :
    UniqueKeys (ofFields fields) := by
  refine ⟨nodup_present hnames, uniqueMembers_iff.2 fun m hm => ?_⟩
  exact h _ (mem_present hm) m.2 rfl

@[simp] theorem uniqueKeys_str (s : String) : UniqueKeys (.str s) := trivial

@[simp] theorem uniqueKeys_bool (b : Bool) : UniqueKeys (.bool b) := trivial

@[simp] theorem uniqueKeys_ofI64 (n : I64) : UniqueKeys (ofI64 n) := trivial

@[simp] theorem uniqueKeys_ofU32 (n : U32) : UniqueKeys (ofU32 n) := trivial

@[simp] theorem uniqueKeys_orNull_str (o : Option String) : UniqueKeys (orNull .str o) := by
  cases o <;> trivial

end Written

end Json

/-- Why no value is read. -/
inductive ReadError where
  | syntaxError
  | duplicateKey (key : String)
  | outOfFuel
deriving DecidableEq, Repr

namespace Token

def expect (token : Token) : List Token → Except ReadError (List Token)
  | [] => .error .syntaxError
  | t :: rest => if t = token then .ok rest else .error .syntaxError

def skipComma (first : Bool) (tokens : List Token) : Except ReadError (List Token) :=
  if first then .ok tokens else expect .comma tokens

def readKey : List Token → Except ReadError (String × List Token)
  | .str key :: rest => .ok (key, rest)
  | _ => .error .syntaxError

theorem expect_eq_ok {token : Token} {tokens rest : List Token} :
    expect token tokens = .ok rest ↔ tokens = token :: rest := by
  cases tokens with
  | nil => simp [expect]
  | cons t tokens =>
      rw [expect]
      split_ifs with h
      · simp [h]
      · simp [h]

theorem expect_eq_error {token : Token} {tokens : List Token} {e : ReadError}
    (h : expect token tokens = .error e) : e = .syntaxError := by
  cases tokens with
  | nil => simpa [expect, eq_comm] using h
  | cons t tokens =>
      rw [expect] at h
      split_ifs at h
      simpa [eq_comm] using h

theorem skipComma_eq_ok {first : Bool} {tokens rest : List Token} :
    skipComma first tokens = .ok rest ↔ tokens = Json.commaTokens first ++ rest := by
  cases first <;> simp [skipComma, Json.commaTokens, expect_eq_ok]

theorem skipComma_eq_error {first : Bool} {tokens : List Token} {e : ReadError}
    (h : skipComma first tokens = .error e) : e = .syntaxError := by
  cases first
  · exact expect_eq_error h
  · simp [skipComma] at h

theorem readKey_eq_ok {tokens rest : List Token} {key : String} :
    readKey tokens = .ok (key, rest) ↔ tokens = .str key :: rest := by
  unfold readKey
  split
  · simp
  · next hne =>
      simp only [reduceCtorEq, false_iff]
      rintro rfl
      exact hne _ _ rfl

theorem readKey_eq_error {tokens : List Token} {e : ReadError}
    (h : readKey tokens = .error e) : e = .syntaxError := by
  unfold readKey at h
  split at h
  · cases h
  · simpa [eq_comm] using h

mutual
/-- A value at the front of a token sequence, and the tokens after it. With `unique`
no object may repeat a member name. -/
def readValue (unique : Bool) : Nat → List Token → Except ReadError (Json × List Token)
  | 0, _ => .error .outOfFuel
  | _ + 1, .null :: rest => .ok (.null, rest)
  | _ + 1, .bool b :: rest => .ok (.bool b, rest)
  | _ + 1, .int n :: rest => .ok (.int n, rest)
  | _ + 1, .real literal :: rest => .ok (.real literal, rest)
  | _ + 1, .str s :: rest => .ok (.str s, rest)
  | fuel + 1, .openArr :: rest => do
      let (elements, rest) ← readElements unique fuel true rest
      .ok (.arr elements, rest)
  | fuel + 1, .openObj :: rest => do
      let (members, rest) ← readMembers unique fuel [] rest
      .ok (.obj members, rest)
  | _ + 1, _ => .error .syntaxError

/-- The elements of an array up to its end, and the tokens after it. -/
def readElements (unique : Bool) :
    Nat → Bool → List Token → Except ReadError (List Json × List Token)
  | 0, _, _ => .error .outOfFuel
  | fuel + 1, first, tokens =>
      if tokens.head? = some .closeArr then .ok ([], tokens.tail)
      else do
        let tokens ← skipComma first tokens
        let (j, tokens) ← readValue unique fuel tokens
        let (js, tokens) ← readElements unique fuel false tokens
        .ok (j :: js, tokens)

/-- The members of an object up to its end, after those named in `seen`, and the tokens
after it. -/
def readMembers (unique : Bool) :
    Nat → List String → List Token → Except ReadError (List (String × Json) × List Token)
  | 0, _, _ => .error .outOfFuel
  | fuel + 1, seen, tokens =>
      if tokens.head? = some .closeObj then .ok ([], tokens.tail)
      else do
        let tokens ← skipComma seen.isEmpty tokens
        let (key, tokens) ← readKey tokens
        -- the name is compared before the colon after it is read
        rejectIf (unique = true ∧ key ∈ seen) (.duplicateKey key)
        let tokens ← expect .colon tokens
        let (j, tokens) ← readValue unique fuel tokens
        let (ms, tokens) ← readMembers unique fuel (seen ++ [key]) tokens
        .ok ((key, j) :: ms, tokens)
end

/-- A value at the front of a token sequence, with enough steps for every sequence. -/
def readFront (unique : Bool) (tokens : List Token) : Except ReadError (Json × List Token) :=
  readValue unique (2 * tokens.length + 1) tokens

mutual
/-- A value that is read stands at the front of the tokens, and repeats no member name
when this was asked for. -/
theorem readValue_sound (unique : Bool) : ∀ (fuel : Nat) (tokens : List Token) (j : Json)
    (rest : List Token), readValue unique fuel tokens = .ok (j, rest) →
    tokens = Json.tokensOf j ++ rest ∧ (unique = true → j.UniqueKeys)
  | 0, _, _, _, h => by simp [readValue] at h
  | fuel + 1, .openArr :: tokens, j, rest, h => by
      simp only [readValue, bind_eq_ok, Prod.exists] at h
      obtain ⟨elements, _, helements, h⟩ := h
      obtain ⟨rfl, rfl⟩ : Json.arr elements = j ∧ _ = rest := by simpa using h
      obtain ⟨rfl, hunique⟩ := readElements_sound unique fuel true _ _ _ helements
      exact ⟨rfl, hunique⟩
  | fuel + 1, .openObj :: tokens, j, rest, h => by
      simp only [readValue, bind_eq_ok, Prod.exists] at h
      obtain ⟨members, _, hmembers, h⟩ := h
      obtain ⟨rfl, rfl⟩ : Json.obj members = j ∧ _ = rest := by simpa using h
      obtain ⟨rfl, hunique⟩ := readMembers_sound unique fuel [] _ _ _ hmembers
      exact ⟨rfl, fun hu => (hunique hu).2⟩
  | _ + 1, [], _, _, h | _ + 1, .closeArr :: _, _, _, h | _ + 1, .closeObj :: _, _, _, h
  | _ + 1, .colon :: _, _, _, h | _ + 1, .comma :: _, _, _, h
  | _ + 1, .invalid :: _, _, _, h => by simp [readValue] at h
  | _ + 1, .null :: _, _, _, h | _ + 1, .bool _ :: _, _, _, h | _ + 1, .int _ :: _, _, _, h
  | _ + 1, .real _ :: _, _, _, h | _ + 1, .str _ :: _, _, _, h => by
      simp only [readValue, Except.ok.injEq, Prod.mk.injEq] at h
      obtain ⟨rfl, rfl⟩ := h
      simp [Json.tokensOf, Json.UniqueKeys]

theorem readElements_sound (unique : Bool) : ∀ (fuel : Nat) (first : Bool)
    (tokens : List Token) (js : List Json) (rest : List Token),
    readElements unique fuel first tokens = .ok (js, rest) →
    tokens = Json.elementTokens first js ++ rest ∧ (unique = true → Json.UniqueElements js)
  | 0, _, _, _, _, h => by simp [readElements] at h
  | fuel + 1, first, tokens, js, rest, h => by
      rw [readElements] at h
      split_ifs at h with hclose
      · obtain ⟨rfl, rfl⟩ : [] = js ∧ tokens.tail = rest := by simpa using h
        obtain ⟨tail, rfl⟩ := List.head?_eq_some_iff.1 hclose
        simp [Json.elementTokens, Json.UniqueElements]
      · simp only [bind_eq_ok, Prod.exists, skipComma_eq_ok] at h
        obtain ⟨_, rfl, j, _, hj, js', _, hjs, h⟩ := h
        obtain ⟨rfl, rfl⟩ : j :: js' = js ∧ _ = rest := by simpa using h
        obtain ⟨rfl, hunique⟩ := readValue_sound unique fuel _ _ _ hj
        obtain ⟨rfl, hrest⟩ := readElements_sound unique fuel false _ _ _ hjs
        exact ⟨by simp [Json.elementTokens], fun hu => ⟨hunique hu, hrest hu⟩⟩

theorem readMembers_sound (unique : Bool) : ∀ (fuel : Nat) (seen : List String)
    (tokens : List Token) (ms : List (String × Json)) (rest : List Token),
    readMembers unique fuel seen tokens = .ok (ms, rest) →
    tokens = Json.memberTokens seen.isEmpty ms ++ rest ∧
      (unique = true → (∀ m ∈ ms, m.1 ∉ seen) ∧ (ms.map (·.1)).Nodup ∧ Json.UniqueMembers ms)
  | 0, _, _, _, _, h => by simp [readMembers] at h
  | fuel + 1, seen, tokens, ms, rest, h => by
      rw [readMembers] at h
      split_ifs at h with hclose
      · obtain ⟨rfl, rfl⟩ : [] = ms ∧ tokens.tail = rest := by simpa using h
        obtain ⟨tail, rfl⟩ := List.head?_eq_some_iff.1 hclose
        simp [Json.memberTokens, Json.UniqueMembers]
      · simp only [bind_eq_ok, Prod.exists, skipComma_eq_ok, readKey_eq_ok, rejectIf_eq_ok,
          expect_eq_ok] at h
        obtain ⟨_, rfl, key, _, rfl, -, hfresh, _, rfl, j, _, hj, ms', _, hms, h⟩ := h
        obtain ⟨rfl, rfl⟩ : (key, j) :: ms' = ms ∧ _ = rest := by simpa using h
        obtain ⟨rfl, hunique⟩ := readValue_sound unique fuel _ _ _ hj
        obtain ⟨rfl, hrest⟩ := readMembers_sound unique fuel _ _ _ _ hms
        have hlater : (seen ++ [key]).isEmpty = false := by simp
        refine ⟨by simp [Json.memberTokens, hlater], fun hu => ?_⟩
        obtain ⟨hseen, hnodup, hvalues⟩ := hrest hu
        have hkey : key ∉ seen := fun hmem => hfresh ⟨hu, hmem⟩
        have hother : ∀ m ∈ ms', m.1 ∉ seen ∧ m.1 ≠ key := by
          intro m hm
          simpa using hseen m hm
        refine ⟨?_, ?_, hunique hu, hvalues⟩
        · intro m hm
          rcases List.mem_cons.1 hm with rfl | hm
          · exact hkey
          · exact (hother m hm).1
        · refine List.nodup_cons.2 ⟨?_, hnodup⟩
          intro hmem
          obtain ⟨m, hm, heq⟩ := List.mem_map.1 hmem
          exact (hother m hm).2 heq
end

mutual
theorem readValue_tokensOf (unique : Bool) : ∀ (j : Json) (fuel : Nat) (rest : List Token),
    (unique = true → j.UniqueKeys) → 2 * (Json.tokensOf j).length ≤ fuel →
    readValue unique fuel (Json.tokensOf j ++ rest) = .ok (j, rest)
  | j, 0, _, _, hfuel => by
      have := Json.tokensOf_length_pos j
      omega
  | .null, _ + 1, _, _, _ | .bool _, _ + 1, _, _, _ | .int _, _ + 1, _, _, _
  | .real _, _ + 1, _, _, _ | .str _, _ + 1, _, _, _ => rfl
  | .arr elements, fuel + 1, rest, hunique, hfuel => by
      simp only [Json.tokensOf, List.length_cons] at hfuel
      have helements := readElements_elementTokens unique elements true fuel rest
        (fun hu => hunique hu) (by omega)
      rw [Json.tokensOf, List.cons_append, readValue, helements, ok_bind]
  | .obj members, fuel + 1, rest, hunique, hfuel => by
      simp only [Json.tokensOf, List.length_cons] at hfuel
      have hmembers := readMembers_memberTokens unique members [] fuel rest
        (fun hu => ⟨by simp, hunique hu⟩) (by simpa using by omega)
      rw [Json.tokensOf, List.cons_append, readValue]
      exact congrArg (· >>= fun p => .ok (Json.obj p.1, p.2)) hmembers

theorem readElements_elementTokens (unique : Bool) : ∀ (js : List Json) (first : Bool)
    (fuel : Nat) (rest : List Token), (unique = true → Json.UniqueElements js) →
    2 * (Json.elementTokens first js).length ≤ fuel + 1 →
    readElements unique fuel first (Json.elementTokens first js ++ rest) = .ok (js, rest)
  | js, first, 0, rest, _, hfuel => by
      have := Json.elementTokens_length_pos first js
      omega
  | [], first, fuel + 1, rest, _, _ => rfl
  | j :: js, first, fuel + 1, rest, hunique, hfuel => by
      simp only [Json.elementTokens, List.length_append] at hfuel
      have hlast := Json.elementTokens_length_pos false js
      have hpos := Json.tokensOf_length_pos j
      have hj := readValue_tokensOf unique j fuel (Json.elementTokens false js ++ rest)
        (fun hu => (hunique hu).1) (by omega)
      have hjs := readElements_elementTokens unique js false fuel rest
        (fun hu => (hunique hu).2) (by omega)
      have hopen : (Json.elementTokens first (j :: js) ++ rest).head? ≠ some .closeArr := by
        obtain ⟨t, tail, hcons⟩ := List.exists_cons_of_length_pos hpos
        have hhead := Json.tokensOf_head j
        rw [hcons] at hhead
        cases first
        · simp [Json.elementTokens, Json.commaTokens]
        · simpa [Json.elementTokens, Json.commaTokens, hcons] using hhead
      have hskip : skipComma first (Json.elementTokens first (j :: js) ++ rest) =
          .ok (Json.tokensOf j ++ (Json.elementTokens false js ++ rest)) :=
        skipComma_eq_ok.2 (by simp [Json.elementTokens])
      rw [readElements, if_neg hopen, hskip]
      simp only [ok_bind, hj, hjs]

theorem readMembers_memberTokens (unique : Bool) : ∀ (ms : List (String × Json))
    (seen : List String) (fuel : Nat) (rest : List Token),
    (unique = true → (∀ m ∈ ms, m.1 ∉ seen) ∧ (ms.map (·.1)).Nodup ∧ Json.UniqueMembers ms) →
    2 * (Json.memberTokens seen.isEmpty ms).length ≤ fuel + 1 →
    readMembers unique fuel seen (Json.memberTokens seen.isEmpty ms ++ rest) = .ok (ms, rest)
  | ms, seen, 0, rest, _, hfuel => by
      have := Json.memberTokens_length_pos seen.isEmpty ms
      omega
  | [], seen, fuel + 1, rest, _, _ => rfl
  | (key, j) :: ms, seen, fuel + 1, rest, hunique, hfuel => by
      simp only [Json.memberTokens, List.length_append, List.length_cons] at hfuel
      have hlast := Json.memberTokens_length_pos false ms
      have hpos := Json.tokensOf_length_pos j
      have hlater : (seen ++ [key]).isEmpty = false := by simp
      have hj := readValue_tokensOf unique j fuel (Json.memberTokens false ms ++ rest)
        (fun hu => (hunique hu).2.2.1) (by omega)
      have hms := readMembers_memberTokens unique ms (seen ++ [key]) fuel rest
        (fun hu => by
          obtain ⟨hseen, hnodup, hvalues⟩ := hunique hu
          obtain ⟨hfresh, hnodup⟩ := List.nodup_cons.1 hnodup
          refine ⟨fun m hm => ?_, hnodup, hvalues.2⟩
          have hother : m.1 ≠ key := fun heq =>
            hfresh (List.mem_map.2 ⟨m, hm, heq⟩)
          simpa [hother] using hseen m (by simp [hm]))
        (by rw [hlater]; omega)
      rw [hlater] at hms
      have hopen : (Json.memberTokens seen.isEmpty ((key, j) :: ms) ++ rest).head? ≠
          some .closeObj := by
        cases seen <;> simp [Json.memberTokens, Json.commaTokens]
      have hskip : skipComma seen.isEmpty (Json.memberTokens seen.isEmpty ((key, j) :: ms) ++ rest)
          = .ok (.str key :: .colon :: (Json.tokensOf j ++ (Json.memberTokens false ms ++ rest))) :=
        skipComma_eq_ok.2 (by simp [Json.memberTokens])
      have hfresh : ¬ (unique = true ∧ key ∈ seen) := fun h =>
        (hunique h.1).1 (key, j) (by simp) h.2
      rw [readMembers, if_neg hopen, hskip]
      simp only [ok_bind, readKey, rejectIf_bind_of_not hfresh, expect, if_true, hj, hms]
end

theorem readFront_tokensOf {unique : Bool} {j : Json} (h : unique = true → j.UniqueKeys)
    (rest : List Token) : readFront unique (Json.tokensOf j ++ rest) = .ok (j, rest) :=
  readValue_tokensOf unique j _ rest h (by simp only [List.length_append]; omega)

theorem readFront_sound {unique : Bool} {tokens rest : List Token} {j : Json}
    (h : readFront unique tokens = .ok (j, rest)) :
    tokens = Json.tokensOf j ++ rest ∧ (unique = true → j.UniqueKeys) :=
  readValue_sound unique _ tokens j rest h

theorem tokensOf_append_inj {j k : Json} {xs ys : List Token}
    (h : Json.tokensOf j ++ xs = Json.tokensOf k ++ ys) : j = k ∧ xs = ys := by
  have hj : readFront false (Json.tokensOf j ++ xs) = .ok (j, xs) := readFront_tokensOf (by simp) xs
  rw [h, readFront_tokensOf (by simp) ys] at hj
  simpa [eq_comm] using hj

mutual
theorem readValue_ne_outOfFuel (unique : Bool) : ∀ (fuel : Nat) (tokens : List Token),
    2 * tokens.length + 1 ≤ fuel → readValue unique fuel tokens ≠ .error .outOfFuel
  | 0, tokens, hfuel => by omega
  | fuel + 1, .openArr :: tokens, hfuel => by
      simp only [List.length_cons] at hfuel
      have helements := readElements_ne_outOfFuel unique fuel true tokens (by omega)
      simpa [readValue, bind_eq_error] using helements
  | fuel + 1, .openObj :: tokens, hfuel => by
      simp only [List.length_cons] at hfuel
      have hmembers := readMembers_ne_outOfFuel unique fuel [] tokens (by omega)
      simpa [readValue, bind_eq_error] using hmembers
  | _ + 1, [], _ | _ + 1, .null :: _, _ | _ + 1, .bool _ :: _, _ | _ + 1, .int _ :: _, _
  | _ + 1, .real _ :: _, _ | _ + 1, .str _ :: _, _ | _ + 1, .closeArr :: _, _
  | _ + 1, .closeObj :: _, _ | _ + 1, .colon :: _, _ | _ + 1, .comma :: _, _
  | _ + 1, .invalid :: _, _ => by simp [readValue]

theorem readElements_ne_outOfFuel (unique : Bool) : ∀ (fuel : Nat) (first : Bool)
    (tokens : List Token), 2 * tokens.length + 2 ≤ fuel →
    readElements unique fuel first tokens ≠ .error .outOfFuel
  | 0, _, tokens, hfuel => by omega
  | fuel + 1, first, tokens, hfuel => by
      rw [readElements]
      split_ifs with hclose
      · simp
      · rw [Ne, bind_eq_error]
        rintro (hskip | ⟨tokens₁, hskip, hrest⟩)
        · exact absurd (skipComma_eq_error hskip) (by simp)
        · obtain rfl := skipComma_eq_ok.1 hskip
          simp only [List.length_append] at hfuel
          rw [bind_eq_error] at hrest
          rcases hrest with hvalue | ⟨⟨j, tokens₂⟩, hvalue, hrest⟩
          · exact readValue_ne_outOfFuel unique fuel _ (by omega) hvalue
          · obtain ⟨rfl, -⟩ := readValue_sound unique _ _ _ _ hvalue
            have hpos := Json.tokensOf_length_pos j
            simp only [List.length_append] at hfuel
            have helements := readElements_ne_outOfFuel unique fuel false tokens₂ (by omega)
            exact helements (by simpa [bind_eq_error] using hrest)

theorem readMembers_ne_outOfFuel (unique : Bool) : ∀ (fuel : Nat) (seen : List String)
    (tokens : List Token), 2 * tokens.length + 2 ≤ fuel →
    readMembers unique fuel seen tokens ≠ .error .outOfFuel
  | 0, _, tokens, hfuel => by omega
  | fuel + 1, seen, tokens, hfuel => by
      rw [readMembers]
      split_ifs with hclose
      · simp
      · rw [Ne, bind_eq_error]
        rintro (hskip | ⟨tokens₁, hskip, hrest⟩)
        · exact absurd (skipComma_eq_error hskip) (by simp)
        obtain rfl := skipComma_eq_ok.1 hskip
        rw [bind_eq_error] at hrest
        rcases hrest with hkey | ⟨⟨key, tokens₂⟩, hkey, hrest⟩
        · exact absurd (readKey_eq_error hkey) (by simp)
        obtain rfl := readKey_eq_ok.1 hkey
        simp only [bind_eq_error, rejectIf_eq_error, reduceCtorEq, and_false, false_or] at hrest
        obtain ⟨-, -, hcolon | ⟨tokens₃, hcolon, hrest⟩⟩ := hrest
        · exact absurd (expect_eq_error hcolon) (by simp)
        obtain rfl := expect_eq_ok.1 hcolon
        simp only [List.length_append, List.length_cons] at hfuel
        rcases hrest with hvalue | ⟨⟨j, tokens₄⟩, hvalue, hrest⟩
        · exact readValue_ne_outOfFuel unique fuel _ (by omega) hvalue
        obtain ⟨rfl, -⟩ := readValue_sound unique _ _ _ _ hvalue
        simp only [List.length_append] at hfuel
        have hmembers := readMembers_ne_outOfFuel unique fuel (seen ++ [key]) tokens₄ (by omega)
        exact hmembers (by simpa [bind_eq_error] using hrest)
end

theorem readFront_ne_outOfFuel (unique : Bool) (tokens : List Token) :
    readFront unique tokens ≠ .error .outOfFuel :=
  readValue_ne_outOfFuel unique _ tokens (by omega)

def priorTokens (ms : List (String × Json)) : List Token :=
  ms.flatMap fun m => .str m.1 :: .colon :: (Json.tokensOf m.2 ++ [.comma])

/-- An object of the text, at any depth and perhaps not complete, has a member of the
given name after an earlier one of the same name. -/
def RepeatsKey (tokens : List Token) (key : String) : Prop :=
  ∃ before ms after, tokens = before ++ .openObj :: (priorTokens ms ++ .str key :: after) ∧
    key ∈ ms.map (·.1)

theorem RepeatsKey.append_left {tokens : List Token} {key : String} (h : RepeatsKey tokens key)
    (before : List Token) : RepeatsKey (before ++ tokens) key := by
  obtain ⟨before', ms, after, rfl, hkey⟩ := h
  exact ⟨before ++ before', ms, after, by simp, hkey⟩

theorem RepeatsKey.cons {tokens : List Token} {key : String} (h : RepeatsKey tokens key)
    (t : Token) : RepeatsKey (t :: tokens) key :=
  h.append_left [t]

theorem priorTokens_cons (m : String × Json) (ms : List (String × Json)) :
    priorTokens (m :: ms) =
      .str m.1 :: .colon :: (Json.tokensOf m.2 ++ .comma :: priorTokens ms) := by
  simp [priorTokens]

mutual
theorem readValue_duplicateKey {key : String} : ∀ (fuel : Nat) (tokens : List Token),
    readValue true fuel tokens = .error (.duplicateKey key) → RepeatsKey tokens key
  | 0, _, h => by simp [readValue] at h
  | fuel + 1, .openArr :: tokens, h =>
      (readElements_duplicateKey fuel true tokens
        (by simpa [readValue, bind_eq_error] using h)).cons _
  | fuel + 1, .openObj :: tokens, h => by
      have hmembers := readMembers_duplicateKey fuel [] tokens
        (by simpa [readValue, bind_eq_error] using h)
      rcases hmembers with hinner | ⟨ms, after, rfl, hkey⟩
      · exact hinner.cons _
      · exact ⟨[], ms, after, rfl, by simpa using hkey⟩
  | _ + 1, [], h | _ + 1, .null :: _, h | _ + 1, .bool _ :: _, h | _ + 1, .int _ :: _, h
  | _ + 1, .real _ :: _, h | _ + 1, .str _ :: _, h | _ + 1, .closeArr :: _, h
  | _ + 1, .closeObj :: _, h | _ + 1, .colon :: _, h | _ + 1, .comma :: _, h
  | _ + 1, .invalid :: _, h => by simp [readValue] at h

theorem readElements_duplicateKey {key : String} : ∀ (fuel : Nat) (first : Bool)
    (tokens : List Token), readElements true fuel first tokens = .error (.duplicateKey key) →
    RepeatsKey tokens key
  | 0, _, _, h => by simp [readElements] at h
  | fuel + 1, first, tokens, h => by
      rw [readElements] at h
      split_ifs at h
      rw [bind_eq_error] at h
      rcases h with hskip | ⟨tokens₁, hskip, h⟩
      · exact absurd (skipComma_eq_error hskip) (by simp)
      obtain rfl := skipComma_eq_ok.1 hskip
      rw [bind_eq_error] at h
      rcases h with hvalue | ⟨⟨j, tokens₂⟩, hvalue, h⟩
      · exact (readValue_duplicateKey fuel _ hvalue).append_left _
      obtain ⟨rfl, -⟩ := readValue_sound _ _ _ _ _ hvalue
      have helements := readElements_duplicateKey fuel false tokens₂
        (by simpa [bind_eq_error] using h)
      exact (helements.append_left _).append_left _

theorem readMembers_duplicateKey {key : String} : ∀ (fuel : Nat) (seen : List String)
    (tokens : List Token), readMembers true fuel seen tokens = .error (.duplicateKey key) →
    RepeatsKey tokens key ∨ ∃ ms after,
      tokens = Json.commaTokens seen.isEmpty ++ (priorTokens ms ++ .str key :: after) ∧
        key ∈ seen ++ ms.map (·.1)
  | 0, _, _, h => by simp [readMembers] at h
  | fuel + 1, seen, tokens, h => by
      rw [readMembers] at h
      split_ifs at h
      rw [bind_eq_error] at h
      rcases h with hskip | ⟨tokens₁, hskip, h⟩
      · exact absurd (skipComma_eq_error hskip) (by simp)
      obtain rfl := skipComma_eq_ok.1 hskip
      rw [bind_eq_error] at h
      rcases h with hkey | ⟨⟨name, tokens₂⟩, hkey, h⟩
      · exact absurd (readKey_eq_error hkey) (by simp)
      obtain rfl := readKey_eq_ok.1 hkey
      simp only [bind_eq_error, rejectIf_eq_error, rejectIf_eq_ok] at h
      rcases h with ⟨hseen, hname⟩ | ⟨-, -, hcolon | ⟨tokens₃, hcolon, h⟩⟩
      · obtain rfl : name = key := by simpa [eq_comm] using hname
        exact .inr ⟨[], tokens₂, by simp [priorTokens], by simpa using hseen.2⟩
      · exact absurd (expect_eq_error hcolon) (by simp)
      obtain rfl := expect_eq_ok.1 hcolon
      rcases h with hvalue | ⟨⟨j, tokens₄⟩, hvalue, h⟩
      · have hinner := readValue_duplicateKey fuel _ hvalue
        exact .inl (((hinner.cons _).cons _).append_left _)
      obtain ⟨rfl, -⟩ := readValue_sound _ _ _ _ _ hvalue
      have hlater : (seen ++ [name]).isEmpty = false := by simp
      rcases readMembers_duplicateKey fuel (seen ++ [name]) tokens₄
        (by simpa [bind_eq_error] using h) with hinner | ⟨ms, after, rfl, hmem⟩
      · exact .inl ((((hinner.append_left _).cons _).cons _).append_left _)
      · refine .inr ⟨(name, j) :: ms, after, ?_, by simpa using hmem⟩
        simp [priorTokens_cons, hlater, Json.commaTokens]
end

/-- After every opening brace stand the members of an object, their names different. -/
def Closed (tokens : List Token) : Prop :=
  ∀ before after, tokens = before ++ .openObj :: after →
    ∃ ms tail, after = Json.memberTokens true ms ++ tail ∧ (ms.map (·.1)).Nodup

theorem Closed.cons {tokens : List Token} (h : Closed tokens) {t : Token} (ht : t ≠ .openObj) :
    Closed (t :: tokens) := by
  intro before after heq
  cases before with
  | nil => exact absurd (List.cons.inj heq).1 ht
  | cons b before => exact h before after (List.cons.inj heq).2

theorem Closed.append {xs ys : List Token} (hx : Closed xs) (hy : Closed ys) :
    Closed (xs ++ ys) := by
  intro before after heq
  rcases List.append_eq_append_iff.1 heq with ⟨inner, rfl, hys⟩ | ⟨inner, rfl, hinner⟩
  · exact hy inner after hys
  · cases inner with
    | nil => exact hy [] after (by simpa using hinner.symm)
    | cons b inner =>
        obtain ⟨rfl, rfl⟩ := List.cons.inj hinner
        obtain ⟨ms, tail, rfl, hnodup⟩ := hx before inner rfl
        exact ⟨ms, tail ++ ys, by simp, hnodup⟩

theorem closed_nil : Closed [] := by
  intro before after heq
  simp at heq

theorem closed_commaTokens (first : Bool) : Closed (Json.commaTokens first) := by
  cases first
  · exact closed_nil.cons (by simp)
  · exact closed_nil

mutual
theorem closed_tokensOf : ∀ j : Json, j.UniqueKeys → Closed (Json.tokensOf j)
  | .null, _ | .bool _, _ | .int _, _ | .real _, _ | .str _, _ => closed_nil.cons (by simp)
  | .arr elements, h => (closed_elementTokens elements true h).cons (by simp)
  | .obj members, h => by
      have hmembers := closed_memberTokens members true h.2
      intro before after heq
      rw [Json.tokensOf] at heq
      cases before with
      | nil => exact ⟨members, [], by simpa [eq_comm] using heq, h.1⟩
      | cons b before => exact hmembers before after (List.cons.inj heq).2

theorem closed_elementTokens : ∀ (js : List Json) (first : Bool), Json.UniqueElements js →
    Closed (Json.elementTokens first js)
  | [], _, _ => closed_nil.cons (by simp)
  | j :: js, first, h =>
      (closed_commaTokens first).append
        ((closed_tokensOf j h.1).append (closed_elementTokens js false h.2))

theorem closed_memberTokens : ∀ (ms : List (String × Json)) (first : Bool),
    Json.UniqueMembers ms → Closed (Json.memberTokens first ms)
  | [], _, _ => closed_nil.cons (by simp)
  | (_, j) :: ms, first, h =>
      (closed_commaTokens first).append
        ((((closed_tokensOf j h.1).append (closed_memberTokens ms false h.2)).cons
          (by simp)).cons (by simp))
end

/-- Members that are followed by another one are the first members of their object. -/
theorem mem_of_priorTokens {ms ns : List (String × Json)} {key : String} {after tail : List Token}
    (h : priorTokens ms ++ .str key :: after = Json.memberTokens true ns ++ tail) :
    ∃ j rest, ns = ms ++ (key, j) :: rest := by
  induction ms generalizing ns with
  | nil =>
      cases ns with
      | nil => simp [priorTokens, Json.memberTokens] at h
      | cons n rest =>
          obtain ⟨name, j⟩ := n
          obtain ⟨rfl, -⟩ : key = name ∧ _ := by
            simpa [priorTokens, Json.memberTokens, Json.commaTokens] using h
          exact ⟨j, rest, rfl⟩
  | cons m ms ih =>
      cases ns with
      | nil => simp [priorTokens_cons, Json.memberTokens] at h
      | cons n rest =>
          obtain ⟨mname, mj⟩ := m
          obtain ⟨nname, nj⟩ := n
          simp only [priorTokens_cons, Json.memberTokens, Json.commaTokens, if_true,
            List.nil_append, List.cons_append, List.cons.injEq, Token.str.injEq, true_and,
            List.append_assoc] at h
          obtain ⟨rfl, h⟩ := h
          obtain ⟨rfl, h⟩ := tokensOf_append_inj h
          cases rest with
          | nil => simp [Json.memberTokens] at h
          | cons n rest =>
              have htail : priorTokens ms ++ .str key :: after =
                  Json.memberTokens true (n :: rest) ++ tail := by
                simpa [Json.memberTokens, Json.commaTokens] using h
              obtain ⟨j, rest', hrest⟩ := ih htail
              exact ⟨j, rest', by rw [hrest, List.cons_append]⟩

theorem not_repeatsKey {j : Json} (h : j.UniqueKeys) (key : String) :
    ¬ RepeatsKey (Json.tokensOf j) key := by
  rintro ⟨before, ms, after, heq, hkey⟩
  obtain ⟨ns, tail, hns, hnodup⟩ := closed_tokensOf j h before _ heq
  obtain ⟨value, rest, rfl⟩ := mem_of_priorTokens hns
  rw [List.map_append, List.map_cons, List.nodup_append] at hnodup
  exact hnodup.2.2 key hkey key (by simp) rfl

end Token

/-- A tokenizer of JSON text that cuts what `print` writes into its tokens. `message` is
what the reader says of a text that is no JSON value, and `mismatch` of one that is no
value of the named type. -/
structure JsonTokenizer where
  tokens : List UInt8 → List Token
  message : List UInt8 → String
  mismatch : String → List UInt8 → String
  tokens_print : ∀ j : Json, j.Exact → tokens j.print = Json.tokensOf j

/-- A tokenizer of the texts that `print` writes. -/
def compactTokenizer : JsonTokenizer where
  tokens bytes := ((Json.readAll bytes).map Json.tokensOf).getD [.invalid]
  message _ := "invalid text"
  mismatch type _ := type
  tokens_print j hexact := by rw [Json.readAll_print hexact]; rfl

end Foundation
