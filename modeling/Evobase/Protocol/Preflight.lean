import Evobase.Foundation.JsonGrammar
import Evobase.Protocol.Wire

/-!
# The lexical check counts what a parser counts

The lexical check scans bytes and parses nothing. Over the text of a document it does what a
walk over the skeleton of the document does (`scan_value`), in the order of the text: so its
result depends on the skeleton alone, and it accepts exactly the documents within the bounds.
-/

namespace Evobase

open Foundation JsonText

def countNode (n : Nat) : Except Error Nat := do
  rejectIf (n + 1 > maxNodes) (.limitExceeded "nodes" maxNodes)
  .ok (n + 1)

/-- One more container, at the given depth. -/
def countOpen (d n : Nat) : Except Error Nat := do
  rejectIf (d + 1 > maxDepth) (.limitExceeded "depth" maxDepth)
  countNode n

mutual
/-- The nodes after a value, counted from `n` at the depth `d`. -/
def countValue (d n : Nat) : Json → Except Error Nat
  | .arr elements => do
      let m ← countOpen d n
      countElements (d + 1) m elements
  | .obj members => do
      let m ← countOpen d n
      countMembers (d + 1) m members
  | _ => countNode n

def countElements (d n : Nat) : List Json → Except Error Nat
  | [] => .ok n
  | j :: rest => do
      let m ← countValue d n j
      countElements d m rest

def countMembers (d n : Nat) : List (String × Json) → Except Error Nat
  | [] => .ok n
  | (_, j) :: rest => do
      let k ← countNode n
      let m ← countValue d k j
      countMembers d m rest
end

section Count

variable {d n m : Nat}

theorem countNode_eq_ok : countNode n = .ok m ↔ n + 1 ≤ maxNodes ∧ m = n + 1 := by
  simp only [countNode, bind_eq_ok, rejectIf_eq_ok, gt_iff_lt, not_lt, Except.ok.injEq]
  constructor
  · rintro ⟨-, hle, rfl⟩
    exact ⟨hle, rfl⟩
  · rintro ⟨hle, rfl⟩
    exact ⟨(), hle, rfl⟩

theorem countOpen_eq_ok :
    countOpen d n = .ok m ↔ d + 1 ≤ maxDepth ∧ n + 1 ≤ maxNodes ∧ m = n + 1 := by
  simp only [countOpen, bind_eq_ok, rejectIf_eq_ok, gt_iff_lt, not_lt, countNode_eq_ok]
  constructor
  · rintro ⟨-, hdepth, hnodes⟩
    exact ⟨hdepth, hnodes⟩
  · rintro ⟨hdepth, hnodes⟩
    exact ⟨(), hdepth, hnodes⟩

mutual
/-- The walk over a value succeeds within the bounds, and then it has counted its nodes. -/
theorem countValue_eq_ok : ∀ (j : Json) (d n m : Nat), d ≤ maxDepth →
    (countValue d n j = .ok m ↔
      d + j.depth ≤ maxDepth ∧ n + j.nodes ≤ maxNodes ∧ m = n + j.nodes)
  | .null, d, n, m, hd => by simp [countValue, countNode_eq_ok, Json.depth, Json.nodes, hd]
  | .bool _, d, n, m, hd => by simp [countValue, countNode_eq_ok, Json.depth, Json.nodes, hd]
  | .int _, d, n, m, hd => by simp [countValue, countNode_eq_ok, Json.depth, Json.nodes, hd]
  | .real _, d, n, m, hd => by simp [countValue, countNode_eq_ok, Json.depth, Json.nodes, hd]
  | .str _, d, n, m, hd => by simp [countValue, countNode_eq_ok, Json.depth, Json.nodes, hd]
  | .arr elements, d, n, m, hd => by
      simp only [countValue, bind_eq_ok, countOpen_eq_ok, Json.depth, Json.nodes, ← Nat.add_assoc]
      constructor
      · rintro ⟨k, ⟨hdepth, hnodes, rfl⟩, hrest⟩
        exact (countElements_eq_ok elements _ _ m hdepth hnodes).1 hrest
      · intro hall
        have hdepth : d + 1 ≤ maxDepth := by omega
        have hnodes : n + 1 ≤ maxNodes := by omega
        exact ⟨_, ⟨hdepth, hnodes, rfl⟩,
          (countElements_eq_ok elements _ _ m hdepth hnodes).2 hall⟩
  | .obj members, d, n, m, hd => by
      simp only [countValue, bind_eq_ok, countOpen_eq_ok, Json.depth, Json.nodes, ← Nat.add_assoc]
      constructor
      · rintro ⟨k, ⟨hdepth, hnodes, rfl⟩, hrest⟩
        exact (countMembers_eq_ok members _ _ m hdepth hnodes).1 hrest
      · intro hall
        have hdepth : d + 1 ≤ maxDepth := by omega
        have hnodes : n + 1 ≤ maxNodes := by omega
        exact ⟨_, ⟨hdepth, hnodes, rfl⟩,
          (countMembers_eq_ok members _ _ m hdepth hnodes).2 hall⟩

theorem countElements_eq_ok : ∀ (js : List Json) (d n m : Nat), d ≤ maxDepth → n ≤ maxNodes →
    (countElements d n js = .ok m ↔ d + Json.depthElements js ≤ maxDepth ∧
      n + Json.nodesElements js ≤ maxNodes ∧ m = n + Json.nodesElements js)
  | [], d, n, m, hd, hn => by
      simp [countElements, Json.depthElements, Json.nodesElements, hd, hn, eq_comm]
  | j :: js, d, n, m, hd, hn => by
      simp only [countElements, bind_eq_ok, Json.depthElements, Json.nodesElements,
        ← Nat.add_assoc, countValue_eq_ok j d n _ hd]
      constructor
      · rintro ⟨k, ⟨hd₁, hn₁, rfl⟩, hrest⟩
        obtain ⟨hd₂, hn₂, rfl⟩ := (countElements_eq_ok js d _ m hd hn₁).1 hrest
        exact ⟨by omega, hn₂, rfl⟩
      · rintro ⟨hdepth, hnodes, rfl⟩
        have hn₁ : n + j.nodes ≤ maxNodes := by omega
        exact ⟨_, ⟨by omega, hn₁, rfl⟩,
          (countElements_eq_ok js d _ _ hd hn₁).2 ⟨by omega, hnodes, rfl⟩⟩

theorem countMembers_eq_ok : ∀ (ms : List (String × Json)) (d n m : Nat), d ≤ maxDepth →
    n ≤ maxNodes →
    (countMembers d n ms = .ok m ↔ d + Json.depthMembers ms ≤ maxDepth ∧
      n + Json.nodesMembers ms ≤ maxNodes ∧ m = n + Json.nodesMembers ms)
  | [], d, n, m, hd, hn => by
      simp [countMembers, Json.depthMembers, Json.nodesMembers, hd, hn, eq_comm]
  | (name, j) :: ms, d, n, m, hd, hn => by
      simp only [countMembers, bind_eq_ok, Json.depthMembers, Json.nodesMembers,
        ← Nat.add_assoc, countNode_eq_ok, countValue_eq_ok j d _ _ hd]
      constructor
      · rintro ⟨_, ⟨hn₀, rfl⟩, k, ⟨hd₁, hn₁, rfl⟩, hrest⟩
        obtain ⟨hd₂, hn₂, rfl⟩ := (countMembers_eq_ok ms d _ m hd hn₁).1 hrest
        exact ⟨by omega, hn₂, rfl⟩
      · rintro ⟨hdepth, hnodes, rfl⟩
        have hn₁ : n + 1 + j.nodes ≤ maxNodes := by omega
        exact ⟨_, ⟨by omega, rfl⟩, _, ⟨by omega, hn₁, rfl⟩,
          (countMembers_eq_ok ms d _ _ hd hn₁).2 ⟨by omega, hnodes, rfl⟩⟩
end

end Count

section Tokens

variable {d n : Nat} {atom : Bool} {b : UInt8}

theorem scanByte_quote : scanByte (.outside d n atom) 34 =
    (countNode n >>= fun m => .ok (.inside d m)) := by
  simp only [scanByte, scanOutside, Bool.false_eq_true, if_false, if_true, ok_bind, countNode,
    bind_assoc]

theorem scanByte_open (hb : b = 123 ∨ b = 91) : scanByte (.outside d n atom) b =
    (countOpen d n >>= fun m => .ok (.outside (d + 1) m false)) := by
  have hquote : b ≠ 34 := by rcases hb with rfl | rfl <;> decide
  simp only [scanByte, scanOutside, Bool.false_eq_true, if_false, hquote, hb, if_true, ok_bind,
    countOpen, countNode, bind_assoc]

theorem scanByte_close (hn : n ≤ maxNodes) (hb : b = 125 ∨ b = 93) :
    scanByte (.outside d n atom) b = .ok (.outside (d - 1) n false) := by
  rw [scanByte_eq_ok]
  refine ⟨?_, hn⟩
  rcases hb with rfl | rfl <;> simp [scanOutside]

theorem scanByte_blank (hn : n ≤ maxNodes) (hb : b ∈ [32, 9, 10, 13]) :
    scanByte (.outside d n atom) b = .ok (.outside d n false) := by
  rw [scanByte_eq_ok]
  refine ⟨?_, hn⟩
  fin_cases hb <;> simp [scanOutside]

theorem scanByte_atom (hb : AtomByte b) : scanByte (.outside d n false) b =
    (countNode n >>= fun m => .ok (.outside d m true)) := by
  simp only [scanByte, scanOutside_atomByte hb, Bool.false_eq_true, if_false, ok_bind, countNode,
    bind_assoc]

theorem scan_blank (atom : Bool) (blank : Blank) (hn : n ≤ maxNodes) :
    ∃ atom', (atom = false → atom' = false) ∧ ∀ rest,
      scan (.outside d n atom) (blank.bytes ++ rest) = scan (.outside d n atom') rest := by
  obtain ⟨bytes, hblank⟩ := blank
  cases bytes with
  | nil => exact ⟨atom, id, fun rest => rfl⟩
  | cons b bytes =>
      have hrest : ∀ (bytes : List UInt8), (∀ x ∈ bytes, x ∈ [32, 9, 10, 13]) → ∀ rest,
          scan (.outside d n false) (bytes ++ rest) = scan (.outside d n false) rest := by
        intro bytes hbytes rest
        induction bytes with
        | nil => rfl
        | cons x bytes ih =>
            rw [List.cons_append, scan_cons, scanByte_blank hn (hbytes x (by simp)), ok_bind]
            exact ih fun y hy => hbytes y (by simp [hy])
      refine ⟨false, fun _ => rfl, fun rest => ?_⟩
      rw [List.cons_append, scan_cons, scanByte_blank hn (hblank b (by simp)), ok_bind]
      exact hrest bytes (fun x hx => hblank x (by simp [hx])) rest

theorem scan_blank_free (blank : Blank) (hn : n ≤ maxNodes) (rest : List UInt8) :
    scan (.outside d n false) (blank.bytes ++ rest) = scan (.outside d n false) rest := by
  obtain ⟨atom', hfree, hscan⟩ := scan_blank (d := d) false blank hn
  rw [hscan, hfree rfl]

theorem scan_blank_separator (blank : Blank) (hn : n ≤ maxNodes) (hb : b ∈ [58, 44])
    (rest : List UInt8) :
    scan (.outside d n atom) (blank.bytes ++ b :: rest) = scan (.outside d n false) rest := by
  obtain ⟨atom', -, hscan⟩ := scan_blank (d := d) atom blank hn
  rw [hscan, scan_separator hn hb]

theorem scan_blank_close (blank : Blank) (hn : n ≤ maxNodes) (hb : b = 125 ∨ b = 93)
    (rest : List UInt8) :
    scan (.outside d n atom) (blank.bytes ++ b :: rest) =
      scan (.outside (d - 1) n false) rest := by
  obtain ⟨atom', -, hscan⟩ := scan_blank (d := d) atom blank hn
  rw [hscan, scan_cons, scanByte_close hn hb, ok_bind]

theorem scan_append {s s' : Scan} {xs : List UInt8} (h : scan s xs = .ok s')
    (rest : List UInt8) : scan s (xs ++ rest) = scan s' rest := by
  rw [scan, List.foldlM_append]
  change (scan s xs >>= fun t => scan t rest) = _
  rw [h, ok_bind]

theorem scan_atom_append {bytes : List UInt8} (hne : bytes ≠ [])
    (hbytes : ∀ b ∈ bytes, AtomByte b) (rest : List UInt8) :
    scan (.outside d n false) (bytes ++ rest) =
      (countNode n >>= fun m => scan (.outside d m true) rest) := by
  obtain ⟨b, tail, rfl⟩ := List.exists_cons_of_ne_nil hne
  rw [List.cons_append, scan_cons, scanByte_atom (hbytes b (by simp)), bind_assoc]
  refine bind_congr_ok fun m hm => ?_
  rw [ok_bind]
  refine scan_append (scan_atomBytes_more ?_ tail fun x hx => hbytes x (by simp [hx])) rest
  obtain ⟨hle, rfl⟩ := countNode_eq_ok.1 hm
  exact hle

theorem scan_piece (p : Piece) (rest : List UInt8) :
    scan (.inside d n) (p.bytes ++ rest) = scan (.inside d n) rest := by
  rcases p.shape with ⟨b, tail, hshape, htail⟩ | hplain
  · have hopen : scanByte (.inside d n) 92 = .ok ⟨d, n, true, true, false⟩ := by
      simp [scanByte]
    have hclose : scanByte ⟨d, n, true, true, false⟩ b = .ok (.inside d n) := by
      simp [scanByte]
    rw [hshape, List.cons_append, List.cons_append, scan_cons, hopen, ok_bind, scan_cons, hclose,
      ok_bind]
    exact scan_append (scan_plainBytes tail htail) rest
  · exact scan_append (scan_plainBytes _ hplain) rest

theorem scan_quoted (pieces : List Piece) (rest : List UInt8) :
    scan (.outside d n atom) (quoted pieces ++ rest) =
      (countNode n >>= fun m => scan (.outside d m false) rest) := by
  have hpieces : ∀ (m : Nat) (pieces : List Piece) (rest : List UInt8),
      scan (.inside d m) (pieces.flatMap Piece.bytes ++ rest) = scan (.inside d m) rest := by
    intro m pieces rest
    induction pieces with
    | nil => rfl
    | cons p pieces ih => rw [List.flatMap_cons, List.append_assoc, scan_piece, ih]
  have hclose : ∀ m, scanByte (.inside d m) 34 = .ok (.outside d m false) := by
    intro m
    simp [scanByte]
  rw [quoted, List.cons_append, scan_cons, scanByte_quote, bind_assoc]
  refine bind_congr fun m => ?_
  rw [ok_bind, List.append_assoc, hpieces, List.singleton_append, scan_cons, hclose, ok_bind]

end Tokens

theorem literal_atomBytes (l : Literal) : l.bytes ≠ [] ∧ ∀ b ∈ l.bytes, AtomByte b := by
  cases l <;> exact ⟨by decide, by decide +kernel⟩

theorem number_atomBytes (x : Number) : x.bytes ≠ [] ∧ ∀ b ∈ x.bytes, AtomByte b := by
  refine ⟨x.bytes_ne_nil, fun b hb => ?_⟩
  rcases x.mem_bytes hb with hdigit | hmark
  · exact atomByte_of_isDigit hdigit
  · fin_cases hmark <;> decide

theorem scan_empty {d n : Nat} {opening closing : UInt8} (hopen : opening = 123 ∨ opening = 91)
    (hclose : closing = 125 ∨ closing = 93) (blank : Blank) (rest : List UInt8) :
    scan (.outside d n false) (opening :: (blank.bytes ++ [closing]) ++ rest) =
      (countOpen d n >>= fun m => scan (.outside d m false) rest) := by
  rw [List.cons_append, scan_cons, scanByte_open hopen, bind_assoc]
  refine bind_congr_ok fun m hm => ?_
  obtain ⟨-, hle, rfl⟩ := countOpen_eq_ok.1 hm
  rw [ok_bind, List.append_assoc, List.singleton_append, scan_blank_close blank hle hclose,
    Nat.add_sub_cancel]

mutual
/-- The scanner over the text of a value is the walk over its skeleton. -/
theorem scan_value : ∀ (v : JsonText.Value) (d n : Nat) (rest : List UInt8), d ≤ maxDepth →
    scan (.outside d n false) (v.text ++ rest) =
      (countValue d n v.skeleton >>= fun m => scan (.outside d m v.endsInAtom) rest)
  | .literal l, d, n, rest, _ =>
      scan_atom_append (literal_atomBytes l).1 (literal_atomBytes l).2 rest
  | .number x, d, n, rest, _ =>
      scan_atom_append (number_atomBytes x).1 (number_atomBytes x).2 rest
  | .string pieces, d, n, rest, _ => scan_quoted pieces rest
  | .emptyArr blank, d, n, rest, _ => by
      simp only [JsonText.Value.text, JsonText.Value.skeleton, JsonText.Value.endsInAtom, countValue, countElements]
      rw [scan_empty (.inr rfl) (.inr rfl), bind_assoc]
      rfl
  | .emptyObj blank, d, n, rest, _ => by
      simp only [JsonText.Value.text, JsonText.Value.skeleton, JsonText.Value.endsInAtom, countValue, countMembers]
      rw [scan_empty (.inl rfl) (.inl rfl), bind_assoc]
      rfl
  | .arr elements, d, n, rest, hd => by
      simp only [JsonText.Value.text, JsonText.Value.skeleton, JsonText.Value.endsInAtom, countValue]
      rw [List.cons_append, scan_cons, scanByte_open (.inr rfl), bind_assoc, bind_assoc]
      refine bind_congr_ok fun m hm => ?_
      obtain ⟨hdepth, hle, rfl⟩ := countOpen_eq_ok.1 hm
      rw [ok_bind, List.append_assoc, List.singleton_append,
        scan_elements elements _ _ rest hdepth hle, Nat.add_sub_cancel]
  | .obj members, d, n, rest, hd => by
      simp only [JsonText.Value.text, JsonText.Value.skeleton, JsonText.Value.endsInAtom, countValue]
      rw [List.cons_append, scan_cons, scanByte_open (.inl rfl), bind_assoc, bind_assoc]
      refine bind_congr_ok fun m hm => ?_
      obtain ⟨hdepth, hle, rfl⟩ := countOpen_eq_ok.1 hm
      rw [ok_bind, List.append_assoc, List.singleton_append,
        scan_members members _ _ rest hdepth hle, Nat.add_sub_cancel]

theorem scan_elements : ∀ (es : Elements) (d n : Nat) (rest : List UInt8), d ≤ maxDepth →
    n ≤ maxNodes →
    scan (.outside d n false) (es.text ++ 93 :: rest) =
      (countElements d n es.skeletons >>= fun m => scan (.outside (d - 1) m false) rest)
  | .last before value after, d, n, rest, hd, hn => by
      simp only [Elements.text, Elements.skeletons, countElements, List.append_assoc, bind_assoc]
      rw [scan_blank_free before hn, scan_value value d n _ hd]
      refine bind_congr_ok fun m hm => ?_
      obtain ⟨-, hle, rfl⟩ := (countValue_eq_ok _ d n m hd).1 hm
      rw [ok_bind, scan_blank_close after hle (.inr rfl)]
  | .more before value after others, d, n, rest, hd, hn => by
      simp only [Elements.text, Elements.skeletons, countElements, List.append_assoc,
        List.cons_append, bind_assoc]
      rw [scan_blank_free before hn, scan_value value d n _ hd]
      refine bind_congr_ok fun m hm => ?_
      obtain ⟨-, hle, rfl⟩ := (countValue_eq_ok _ d n m hd).1 hm
      rw [scan_blank_separator after hle (by simp), scan_elements others d _ rest hd hle]

/-- The same for the members of an object and the bracket after them. -/
theorem scan_members : ∀ (ms : Members) (d n : Nat) (rest : List UInt8), d ≤ maxDepth →
    n ≤ maxNodes →
    scan (.outside d n false) (ms.text ++ 125 :: rest) =
      (countMembers d n ms.skeletons >>= fun m => scan (.outside (d - 1) m false) rest)
  | .last before name named colon value after, d, n, rest, hd, hn => by
      simp only [Members.text, Members.skeletons, countMembers, List.append_assoc,
        List.cons_append, bind_assoc]
      rw [scan_blank_free before hn, scan_quoted]
      refine bind_congr_ok fun k hk => ?_
      obtain ⟨hle, rfl⟩ := countNode_eq_ok.1 hk
      rw [scan_blank_separator named hle (by simp), scan_blank_free colon hle,
        scan_value value d _ _ hd]
      refine bind_congr_ok fun m hm => ?_
      obtain ⟨-, hle, rfl⟩ := (countValue_eq_ok _ d _ m hd).1 hm
      rw [ok_bind, scan_blank_close after hle (.inl rfl)]
  | .more before name named colon value after others, d, n, rest, hd, hn => by
      simp only [Members.text, Members.skeletons, countMembers, List.append_assoc,
        List.cons_append, bind_assoc]
      rw [scan_blank_free before hn, scan_quoted]
      refine bind_congr_ok fun k hk => ?_
      obtain ⟨hle, rfl⟩ := countNode_eq_ok.1 hk
      rw [scan_blank_separator named hle (by simp), scan_blank_free colon hle,
        scan_value value d _ _ hd]
      refine bind_congr_ok fun m hm => ?_
      obtain ⟨-, hle, rfl⟩ := (countValue_eq_ok _ d _ m hd).1 hm
      rw [scan_blank_separator after hle (by simp), scan_members others d _ rest hd hle]
end

theorem preflight_text (doc : Document) :
    preflight doc.text = (do
      rejectIf (doc.text.length > maxBytes) (.limitExceeded "bytes" maxBytes)
      let _ ← countValue 0 0 doc.skeleton
      .ok ()) := by
  rw [preflight]
  refine bind_congr fun _ => ?_
  have hscan : scan .start doc.text = (countValue 0 0 doc.skeleton >>= fun m =>
      scan (.outside 0 m doc.value.endsInAtom) doc.after.bytes) := by
    rw [Document.text]
    exact (scan_blank_free doc.before (Nat.zero_le _) _).trans
      (scan_value doc.value 0 0 _ (Nat.zero_le _))
  rw [hscan, bind_assoc]
  refine bind_congr_ok fun m hm => ?_
  obtain ⟨-, hle, rfl⟩ := (countValue_eq_ok _ 0 0 m (Nat.zero_le _)).1 hm
  obtain ⟨atom', -, hafter⟩ := scan_blank (d := 0) doc.value.endsInAtom doc.after hle
  have hend := hafter []
  rw [List.append_nil] at hend
  rw [hend, scan_nil, ok_bind]

theorem preflight_text_iff (doc : Document) :
    preflight doc.text = .ok () ↔
      doc.text.length ≤ maxBytes ∧ doc.depth ≤ maxDepth ∧ doc.nodes ≤ maxNodes := by
  simp only [preflight_text, bind_eq_ok, rejectIf_eq_ok, gt_iff_lt, not_lt,
    countValue_eq_ok doc.skeleton 0 0 _ (Nat.zero_le _), Nat.zero_add, and_true]
  constructor
  · rintro ⟨-, hbytes, m, hdepth, hnodes, rfl⟩
    exact ⟨hbytes, hdepth, hnodes⟩
  · rintro ⟨hbytes, hdepth, hnodes⟩
    exact ⟨(), hbytes, _, hdepth, hnodes, rfl⟩

theorem preflight_text_skeleton (doc : Document) :
    preflight doc.text =
      if doc.text.length ≤ maxBytes then countValue 0 0 doc.skeleton >>= fun _ => .ok ()
      else .error (.limitExceeded "bytes" maxBytes) := by
  rw [preflight_text]
  by_cases hbytes : doc.text.length ≤ maxBytes
  · rw [if_pos hbytes, rejectIf, if_neg (by omega), ok_bind]
  · rw [if_neg hbytes, rejectIf, if_pos (by omega), error_bind]

/-- The two copies of the check accept the same texts and reject with the same resource and
limit. -/
theorem preflight_copies (bytes : List UInt8) :
    (preflight bytes = .ok () ∧ Wire.preflight bytes = .ok ()) ∨
      ∃ resource limit, preflight bytes = .error (.limitExceeded resource limit) ∧
        Wire.preflight bytes = .error (.limitExceeded resource limit) := by
  rw [Wire.preflight_eq]
  cases hpre : preflight bytes with
  | ok u => exact .inl ⟨rfl, rfl⟩
  | error e =>
      have hmem := mem_of_preflight hpre
      simp only [scanErrors, List.mem_cons, List.not_mem_nil, or_false] at hmem
      rcases hmem with rfl | rfl | rfl <;> exact .inr ⟨_, _, rfl, rfl⟩

/-- The lexical check accepts a document exactly when it is within the three bounds. Below the
byte bound its result is a function of the skeleton, so it ignores white space and the content
of strings. On every text the two copies of the check agree. -/
theorem preflight_exact :
    (∀ doc : Document, preflight doc.text = .ok () ↔
      doc.text.length ≤ maxBytes ∧ doc.depth ≤ maxDepth ∧ doc.nodes ≤ maxNodes) ∧
    (∃ verdict : Json → Except Error Unit, ∀ doc : Document, preflight doc.text =
      if doc.text.length ≤ maxBytes then verdict doc.skeleton
      else .error (.limitExceeded "bytes" maxBytes)) ∧
    ∀ bytes, (preflight bytes = .ok () ∧ Wire.preflight bytes = .ok ()) ∨
      ∃ resource limit, preflight bytes = .error (.limitExceeded resource limit) ∧
        Wire.preflight bytes = .error (.limitExceeded resource limit) :=
  ⟨preflight_text_iff, ⟨fun j => countValue 0 0 j >>= fun _ => .ok (), preflight_text_skeleton⟩,
    preflight_copies⟩

end Evobase
