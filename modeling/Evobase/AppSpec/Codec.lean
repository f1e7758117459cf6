import Evobase.AppSpec.Error
import Evobase.Foundation.JsonReader

/-!
# The bounded encoder and its lexical check

`preflight` scans a text byte by byte and counts containers and token starts without
parsing. On the compact text of a value it is exact: it accepts exactly the texts of
at most `maxBytes` bytes whose value is nested at most `maxDepth` deep and has at
most `maxNodes` nodes (`preflight_print_iff`).

The scan is followed along the printing of a value (`scan_print`), with `Fits` for the three
bounds of its tree. What an encoder refuses has `Exceeded` one of them by name, which is why an
error of the encoder tells the limit.
-/

namespace Evobase

open Foundation

/-- The scanner between two bytes. -/
structure Scan where
  depth : Nat
  nodes : Nat
  string : Bool
  escape : Bool
  atom : Bool
deriving DecidableEq, Repr

def Scan.start : Scan := ⟨0, 0, false, false, false⟩

/-- The scanner after one byte outside a string, before the node bound is checked. -/
def scanOutside (s : Scan) (byte : UInt8) : Except Error Scan :=
  if byte = 34 then .ok { s with string := true, atom := false, nodes := s.nodes + 1 }
  else if byte = 123 ∨ byte = 91 then do
    rejectIf (s.depth + 1 > maxDepth) (.limitExceeded "depth" maxDepth)
    .ok { s with depth := s.depth + 1, nodes := s.nodes + 1, atom := false }
  else if byte = 125 ∨ byte = 93 then .ok { s with depth := s.depth - 1, atom := false }
  else if byte ∈ [58, 44, 32, 10, 13, 9] then .ok { s with atom := false }
  else if s.atom then .ok s
  else .ok { s with nodes := s.nodes + 1, atom := true }

/-- The scanner after one byte. -/
def scanByte (s : Scan) (byte : UInt8) : Except Error Scan :=
  if s.string then
    if s.escape then .ok { s with escape := false }
    else if byte = 92 then .ok { s with escape := true }
    else if byte = 34 then .ok { s with string := false }
    else .ok s
  else do
    let next ← scanOutside s byte
    rejectIf (next.nodes > maxNodes) (.limitExceeded "nodes" maxNodes)
    .ok next

def scan (s : Scan) (bytes : List UInt8) : Except Error Scan := bytes.foldlM scanByte s

/-- The lexical check of a text. -/
def preflight (bytes : List UInt8) : Except Error Unit := do
  rejectIf (bytes.length > maxBytes) (.limitExceeded "bytes" maxBytes)
  let _ ← scan .start bytes
  .ok ()

/-- The compact text of a value, when it passes the byte bound and the lexical check. -/
def boundedEncode (j : Json) : Except Error (List UInt8) := do
  rejectIf (j.print.length > maxBytes) (.limitExceeded "bytes" maxBytes)
  preflight j.print
  .ok j.print

/-- The bounds on an encoded value. -/
structure Fits (j : Json) : Prop where
  bytes : j.print.length ≤ maxBytes
  depth : j.depth ≤ maxDepth
  nodes : j.nodes ≤ maxNodes

theorem scan_nil (s : Scan) : scan s [] = .ok s := rfl

theorem scan_cons (s : Scan) (b : UInt8) (bytes : List UInt8) :
    scan s (b :: bytes) = (scanByte s b >>= fun next => scan next bytes) := by
  rw [scan, List.foldlM_cons]
  rfl

theorem scan_append_eq_ok {s s' : Scan} {xs ys : List UInt8} :
    scan s (xs ++ ys) = .ok s' ↔ ∃ t, scan s xs = .ok t ∧ scan t ys = .ok s' := by
  rw [scan, List.foldlM_append, bind_eq_ok]
  rfl

/-- The scanner outside a string; `atom` after a byte of a number or a literal. -/
abbrev Scan.outside (depth nodes : Nat) (atom : Bool) : Scan := ⟨depth, nodes, false, false, atom⟩

abbrev Scan.inside (depth nodes : Nat) : Scan := ⟨depth, nodes, true, false, false⟩

section Steps

variable {d n : Nat} {atom : Bool} {s' : Scan}

theorem scanByte_eq_ok {b : UInt8} :
    scanByte (.outside d n atom) b = .ok s' ↔
      scanOutside (.outside d n atom) b = .ok s' ∧ s'.nodes ≤ maxNodes := by
  simp only [scanByte, Bool.false_eq_true, if_false, bind_eq_ok, rejectIf_eq_ok, gt_iff_lt,
    not_lt, Except.ok.injEq]
  constructor
  · rintro ⟨t, hstep, -, hle, rfl⟩
    exact ⟨hstep, hle⟩
  · rintro ⟨hstep, hle⟩
    exact ⟨s', hstep, (), hle, rfl⟩

theorem scan_separator (hn : n ≤ maxNodes) {b : UInt8} (hb : b ∈ [58, 44])
    (bytes : List UInt8) :
    scan (.outside d n atom) (b :: bytes) = scan (.outside d n false) bytes := by
  have hstep : scanByte (.outside d n atom) b = .ok (.outside d n false) := by
    rw [scanByte_eq_ok]
    refine ⟨?_, hn⟩
    fin_cases hb <;> simp [scanOutside]
  rw [scan_cons, hstep, ok_bind]

/-- The separator before an element, when only the others can follow a number or a
literal. -/
theorem scan_elementSeparator (hn : n ≤ maxNodes) {first : Bool}
    (hatom : first = true → atom = false) (bytes : List UInt8) :
    scan (.outside d n atom) (Json.separator first ++ bytes) =
      scan (.outside d n false) bytes := by
  cases first with
  | true => rw [hatom rfl]; rfl
  | false => exact scan_separator hn (by simp) bytes

theorem scan_open {b : UInt8} (hb : b = 123 ∨ b = 91) {bytes : List UInt8} :
    scan (.outside d n atom) (b :: bytes) = .ok s' ↔
      d + 1 ≤ maxDepth ∧ n + 1 ≤ maxNodes ∧
        scan (.outside (d + 1) (n + 1) false) bytes = .ok s' := by
  have hquote : b ≠ 34 := by rcases hb with rfl | rfl <;> decide
  rw [scan_cons, bind_eq_ok]
  simp only [scanByte_eq_ok, scanOutside, hquote, hb, if_true, if_false, bind_eq_ok,
    rejectIf_eq_ok, gt_iff_lt, not_lt, Except.ok.injEq]
  constructor
  · rintro ⟨t, ⟨⟨-, hdepth, rfl⟩, hnodes⟩, hrest⟩
    exact ⟨hdepth, hnodes, hrest⟩
  · rintro ⟨hdepth, hnodes, hrest⟩
    exact ⟨_, ⟨⟨(), hdepth, rfl⟩, hnodes⟩, hrest⟩

theorem scan_close (hn : n ≤ maxNodes) {b : UInt8} (hb : b = 125 ∨ b = 93) :
    scan (.outside d n atom) [b] = .ok (.outside (d - 1) n false) := by
  have hstep : scanByte (.outside d n atom) b = .ok (.outside (d - 1) n false) := by
    rw [scanByte_eq_ok]
    refine ⟨?_, hn⟩
    rcases hb with rfl | rfl <;> simp [scanOutside]
  rw [scan_cons, hstep, ok_bind, scan_nil]

end Steps

def AtomByte (b : UInt8) : Prop :=
  b ≠ 34 ∧ ¬ (b = 123 ∨ b = 91) ∧ ¬ (b = 125 ∨ b = 93) ∧ b ∉ [58, 44, 32, 10, 13, 9]

instance (b : UInt8) : Decidable (AtomByte b) := inferInstanceAs (Decidable (_ ∧ _))

section Atoms

variable {d n : Nat} {s' : Scan}

theorem scanOutside_atomByte {s : Scan} {b : UInt8} (hb : AtomByte b) :
    scanOutside s b = .ok (if s.atom then s else { s with nodes := s.nodes + 1, atom := true }) := by
  simp only [scanOutside, hb.1, hb.2.1, hb.2.2.1, hb.2.2.2, if_false]
  split_ifs <;> rfl

theorem scan_atomBytes_more (hn : n ≤ maxNodes) (bytes : List UInt8)
    (hbytes : ∀ b ∈ bytes, AtomByte b) :
    scan (.outside d n true) bytes = .ok (.outside d n true) := by
  induction bytes with
  | nil => rfl
  | cons b bytes ih =>
      have hstep : scanByte (.outside d n true) b = .ok (.outside d n true) := by
        rw [scanByte_eq_ok, scanOutside_atomByte (hbytes b (by simp)), if_pos rfl]
        exact ⟨rfl, hn⟩
      rw [scan_cons, hstep, ok_bind]
      exact ih fun x hx => hbytes x (by simp [hx])

theorem scan_atom {bytes : List UInt8} (hne : bytes ≠ []) (hbytes : ∀ b ∈ bytes, AtomByte b) :
    scan (.outside d n false) bytes = .ok s' ↔
      n + 1 ≤ maxNodes ∧ s' = .outside d (n + 1) true := by
  obtain ⟨b, tail, rfl⟩ := List.exists_cons_of_ne_nil hne
  have htail : ∀ b ∈ tail, AtomByte b := fun x hx => hbytes x (by simp [hx])
  rw [scan_cons, bind_eq_ok]
  simp only [scanByte_eq_ok, scanOutside_atomByte (hbytes b (by simp)), Bool.false_eq_true,
    if_false, Except.ok.injEq]
  constructor
  · rintro ⟨t, ⟨rfl, hle⟩, hrest⟩
    rw [scan_atomBytes_more hle tail htail] at hrest
    exact ⟨hle, (Except.ok.inj hrest).symm⟩
  · rintro ⟨hle, rfl⟩
    exact ⟨_, ⟨rfl, hle⟩, scan_atomBytes_more hle tail htail⟩

end Atoms

theorem atomByte_of_isDigit {b : UInt8} (h : Json.isDigitByte b = true) : AtomByte b := by
  obtain ⟨hlow, hhigh⟩ : 48 ≤ b.toNat ∧ b.toNat ≤ 57 := by simpa [Json.isDigitByte] using h
  have outside : ∀ n : UInt8, n.toNat < 48 ∨ 57 < n.toNat → b ≠ n := by
    rintro n hn rfl
    omega
  refine ⟨outside _ (by decide), ?_, ?_, ?_⟩
  · exact not_or.2 ⟨outside _ (by decide), outside _ (by decide)⟩
  · exact not_or.2 ⟨outside _ (by decide), outside _ (by decide)⟩
  · intro hmem
    fin_cases hmem <;> exact outside _ (by decide) rfl

theorem printInt_atom (n : JsonInt) :
    Json.printInt n.val ≠ [] ∧ ∀ b ∈ Json.printInt n.val, AtomByte b := by
  obtain ⟨val, lower, upper⟩ := n
  cases val with
  | ofNat m =>
      change Json.printInt m ≠ [] ∧ ∀ b ∈ Json.printInt m, AtomByte b
      rw [Json.printInt_ofNat]
      exact ⟨Json.digitBytes_ne_nil m, fun b hb =>
        atomByte_of_isDigit (Json.isDigitByte_of_mem hb)⟩
  | negSucc m =>
      rw [Json.printInt_negSucc]
      refine ⟨by simp, fun b hb => ?_⟩
      rcases List.mem_cons.1 hb with rfl | hb
      · decide
      · exact atomByte_of_isDigit (Json.isDigitByte_of_mem hb)

section Strings

variable {d n : Nat} {s' : Scan}

theorem scan_plainBytes (bytes : List UInt8) (hbytes : ∀ b ∈ bytes, Json.PlainByte b) :
    scan (.inside d n) bytes = .ok (.inside d n) := by
  induction bytes with
  | nil => rfl
  | cons b bytes ih =>
      obtain ⟨h34, h92⟩ := hbytes b (by simp)
      have hstep : scanByte (.inside d n) b = .ok (.inside d n) := by simp [scanByte, h34, h92]
      rw [scan_cons, hstep, ok_bind]
      exact ih fun x hx => hbytes x (by simp [hx])

theorem scan_escape (c : Char) : scan (.inside d n) (Json.escape c) = .ok (.inside d n) := by
  rcases Json.escape_shape c with ⟨b, tail, hshape, htail⟩ | hplain
  · have hopen : scanByte (.inside d n) 92 = .ok ⟨d, n, true, true, false⟩ := by
      simp [scanByte]
    have hclose : scanByte ⟨d, n, true, true, false⟩ b = .ok (.inside d n) := by
      simp [scanByte]
    rw [hshape, scan_cons, hopen, ok_bind, scan_cons, hclose, ok_bind]
    exact scan_plainBytes tail htail
  · exact scan_plainBytes _ hplain

theorem scan_characters (cs : List Char) :
    scan (.inside d n) (cs.flatMap Json.escape) = .ok (.inside d n) := by
  induction cs with
  | nil => rfl
  | cons c cs ih =>
      rw [List.flatMap_cons, scan_append_eq_ok]
      exact ⟨_, scan_escape c, ih⟩

theorem scan_printString {atom : Bool} (text : String) :
    scan (.outside d n atom) (Json.printString text) = .ok s' ↔
      n + 1 ≤ maxNodes ∧ s' = .outside d (n + 1) false := by
  have hopen : scanOutside (.outside d n atom) 34 = .ok (.inside d (n + 1)) := by
    simp [scanOutside]
  have hclose : scan (.inside d (n + 1)) (text.toList.flatMap Json.escape ++ [34]) =
      .ok (.outside d (n + 1) false) := by
    rw [scan_append_eq_ok]
    refine ⟨_, scan_characters _, ?_⟩
    simp [scan_cons, scan_nil, scanByte]
  rw [Json.printString, scan_cons, bind_eq_ok]
  simp only [scanByte_eq_ok, hopen, Except.ok.injEq]
  constructor
  · rintro ⟨t, ⟨rfl, hle⟩, hrest⟩
    rw [hclose] at hrest
    exact ⟨hle, (Except.ok.inj hrest).symm⟩
  · rintro ⟨hle, rfl⟩
    exact ⟨_, ⟨rfl, hle⟩, hclose⟩

end Strings

/-- The text of the value ends in a number or a literal. -/
def endsInAtom : Json → Bool
  | .str _ | .arr _ | .obj _ => false
  | _ => true

mutual
/-- The scanner over the compact text of a value adds the nodes of the value and needs
room for its depth. -/
theorem scan_print : ∀ (j : Json) (d n : Nat) (s' : Scan), j.Exact → d ≤ maxDepth →
    (scan (.outside d n false) j.print = .ok s' ↔
      d + j.depth ≤ maxDepth ∧ n + j.nodes ≤ maxNodes ∧
        s' = .outside d (n + j.nodes) (endsInAtom j))
  | .null, d, n, s', _, hd => by
      rw [Json.print, scan_atom (by decide) (by decide +kernel)]
      simp [Json.depth, Json.nodes, endsInAtom, hd]
  | .bool true, d, n, s', _, hd => by
      rw [Json.print, scan_atom (by decide) (by decide +kernel)]
      simp [Json.depth, Json.nodes, endsInAtom, hd]
  | .bool false, d, n, s', _, hd => by
      rw [Json.print, scan_atom (by decide) (by decide +kernel)]
      simp [Json.depth, Json.nodes, endsInAtom, hd]
  | .int i, d, n, s', _, hd => by
      rw [Json.print, scan_atom (printInt_atom i).1 (printInt_atom i).2]
      simp [Json.depth, Json.nodes, endsInAtom, hd]
  | .real _, _, _, _, h, _ => absurd h (by simp [Json.Exact])
  | .str text, d, n, s', _, hd => by
      rw [Json.print, scan_printString]
      simp [Json.depth, Json.nodes, endsInAtom, hd]
  | .arr elements, d, n, s', h, hd => by
      rw [Json.print, scan_open (.inr rfl)]
      simp only [Json.depth, Json.nodes, endsInAtom, ← Nat.add_assoc]
      constructor
      · rintro ⟨hdepth, hnodes, hrest⟩
        exact (scan_printElements elements true _ _ s' h (fun _ => rfl) hdepth hnodes).1 hrest
      · intro hall
        have hdepth := hall.1
        have hnodes := hall.2.1
        have hdepth' : d + 1 ≤ maxDepth := by omega
        have hnodes' : n + 1 ≤ maxNodes := by omega
        exact ⟨hdepth', hnodes',
          (scan_printElements elements true _ _ s' h (fun _ => rfl) hdepth' hnodes').2 hall⟩
  | .obj members, d, n, s', h, hd => by
      rw [Json.print, scan_open (.inl rfl)]
      simp only [Json.depth, Json.nodes, endsInAtom, ← Nat.add_assoc]
      constructor
      · rintro ⟨hdepth, hnodes, hrest⟩
        exact (scan_printMembers members true _ _ s' h (fun _ => rfl) hdepth hnodes).1 hrest
      · intro hall
        have hdepth := hall.1
        have hnodes := hall.2.1
        have hdepth' : d + 1 ≤ maxDepth := by omega
        have hnodes' : n + 1 ≤ maxNodes := by omega
        exact ⟨hdepth', hnodes',
          (scan_printMembers members true _ _ s' h (fun _ => rfl) hdepth' hnodes').2 hall⟩

theorem scan_printElements : ∀ (js : List Json) (first : Bool) (d n : Nat) {atom : Bool}
    (s' : Scan), Json.ExactElements js → (first = true → atom = false) → d ≤ maxDepth →
    n ≤ maxNodes →
    (scan (.outside d n atom) (Json.printElements first js ++ [93]) = .ok s' ↔
      d + Json.depthElements js ≤ maxDepth ∧ n + Json.nodesElements js ≤ maxNodes ∧
        s' = .outside (d - 1) (n + Json.nodesElements js) false)
  | [], first, d, n, atom, s', _, _, hd, hn => by
      rw [Json.printElements, List.nil_append, scan_close hn (.inr rfl)]
      simp [Json.depthElements, Json.nodesElements, hd, hn, eq_comm]
  | j :: js, first, d, n, atom, s', h, ha, hd, hn => by
      obtain ⟨hj, hjs⟩ := h
      rw [Json.printElements, List.append_assoc, List.append_assoc,
        scan_elementSeparator hn ha, scan_append_eq_ok]
      simp only [Json.depthElements, Json.nodesElements, ← Nat.add_assoc,
        scan_print j d n _ hj hd]
      constructor
      · rintro ⟨t, ⟨hd₁, hn₁, rfl⟩, hrest⟩
        obtain ⟨hd₂, hn₂, rfl⟩ :=
          (scan_printElements js false d _ s' hjs (by simp) hd hn₁).1 hrest
        exact ⟨by omega, hn₂, rfl⟩
      · rintro ⟨hdepth, hnodes, rfl⟩
        have hn₁ : n + j.nodes ≤ maxNodes := by omega
        exact ⟨_, ⟨by omega, hn₁, rfl⟩,
          (scan_printElements js false d _ _ hjs (by simp) hd hn₁).2 ⟨by omega, hnodes, rfl⟩⟩

theorem scan_printMembers : ∀ (ms : List (String × Json)) (first : Bool) (d n : Nat)
    {atom : Bool} (s' : Scan), Json.ExactMembers ms → (first = true → atom = false) →
    d ≤ maxDepth → n ≤ maxNodes →
    (scan (.outside d n atom) (Json.printMembers first ms ++ [125]) = .ok s' ↔
      d + Json.depthMembers ms ≤ maxDepth ∧ n + Json.nodesMembers ms ≤ maxNodes ∧
        s' = .outside (d - 1) (n + Json.nodesMembers ms) false)
  | [], first, d, n, atom, s', _, _, hd, hn => by
      rw [Json.printMembers, List.nil_append, scan_close hn (.inl rfl)]
      simp [Json.depthMembers, Json.nodesMembers, hd, hn, eq_comm]
  | (name, j) :: ms, first, d, n, atom, s', h, ha, hd, hn => by
      obtain ⟨hj, hms⟩ := h
      have hshape : Json.printMembers first ((name, j) :: ms) ++ [125] =
          Json.separator first ++
            (Json.printString name ++ 58 :: (j.print ++ (Json.printMembers false ms ++ [125]))) := by
        simp [Json.printMembers]
      rw [hshape, scan_elementSeparator hn ha, scan_append_eq_ok]
      simp only [Json.depthMembers, Json.nodesMembers, ← Nat.add_assoc, scan_printString]
      constructor
      · rintro ⟨t, ⟨hn₀, rfl⟩, hrest⟩
        rw [scan_separator hn₀ (by simp), scan_append_eq_ok] at hrest
        obtain ⟨t, hvalue, hrest⟩ := hrest
        obtain ⟨hd₁, hn₁, rfl⟩ := (scan_print j d _ t hj hd).1 hvalue
        obtain ⟨hd₂, hn₂, rfl⟩ :=
          (scan_printMembers ms false d _ s' hms (by simp) hd hn₁).1 hrest
        exact ⟨by omega, hn₂, rfl⟩
      · rintro ⟨hdepth, hnodes, rfl⟩
        have hn₀ : n + 1 ≤ maxNodes := by omega
        have hn₁ : n + 1 + j.nodes ≤ maxNodes := by omega
        refine ⟨_, ⟨hn₀, rfl⟩, ?_⟩
        rw [scan_separator hn₀ (by simp), scan_append_eq_ok]
        exact ⟨_, (scan_print j d _ _ hj hd).2 ⟨by omega, hn₁, rfl⟩,
          (scan_printMembers ms false d _ _ hms (by simp) hd hn₁).2 ⟨by omega, hnodes, rfl⟩⟩
end

/-- Whether an array fits does not depend on the order of its elements. -/
theorem Fits.of_perm {js ks : List Json} (h : js.Perm ks) (hfits : Fits (.arr js)) :
    Fits (.arr ks) where
  bytes := by
    have hbytes := hfits.bytes
    simp only [Json.print, List.length_cons, List.length_append,
      (Json.length_printElements _).1] at hbytes ⊢
    rwa [(h.map _).sum_eq, h.length_eq] at hbytes
  depth := by
    have hle : ∀ {l : List Json} {d : Nat}, 1 + Json.depthElements l ≤ d ↔
        1 ≤ d ∧ ∀ j ∈ l, j.depth ≤ d - 1 := by
      intro l d
      rw [← Json.depthElements_le_iff]
      omega
    have hdepth := hfits.depth
    rw [Json.depth, hle] at hdepth ⊢
    exact ⟨hdepth.1, fun j hj => hdepth.2 j (h.mem_iff.2 hj)⟩
  nodes := by
    have hnodes := hfits.nodes
    rw [Json.nodes, Json.nodesElements_eq_sum] at hnodes ⊢
    rwa [(h.map _).sum_eq] at hnodes

/-- The lexical check of the compact text of a value is exact. -/
theorem preflight_print_iff {j : Json} (h : j.Exact) :
    preflight j.print = .ok () ↔ Fits j := by
  have hscan : ∀ s', scan .start j.print = .ok s' ↔ _ := fun s' =>
    scan_print j 0 0 s' h (by decide)
  simp only [preflight, bind_eq_ok, rejectIf_eq_ok, gt_iff_lt, not_lt, hscan, Nat.zero_add]
  constructor
  · rintro ⟨-, hbytes, -, ⟨hdepth, hnodes, -⟩, -⟩
    exact ⟨hbytes, hdepth, hnodes⟩
  · rintro ⟨hbytes, hdepth, hnodes⟩
    exact ⟨(), hbytes, _, ⟨hdepth, hnodes, rfl⟩, trivial⟩

theorem boundedEncode_eq_ok_iff {j : Json} (h : j.Exact) {bytes : List UInt8} :
    boundedEncode j = .ok bytes ↔ Fits j ∧ bytes = j.print := by
  simp only [boundedEncode, bind_eq_ok, rejectIf_eq_ok, gt_iff_lt, not_lt, Except.ok.injEq]
  constructor
  · rintro ⟨-, -, ⟨⟩, hpre, rfl⟩
    exact ⟨(preflight_print_iff h).1 hpre, rfl⟩
  · rintro ⟨hfits, rfl⟩
    exact ⟨(), hfits.bytes, (), (preflight_print_iff h).2 hfits, rfl⟩

def Error.isLimit : Error → Bool
  | .limitExceeded _ _ => true
  | _ => false

def scanErrors : List Error :=
  [.limitExceeded "depth" maxDepth, .limitExceeded "nodes" maxNodes]

theorem mem_scanErrors_of_scanOutside {s : Scan} {b : UInt8} {e : Error}
    (h : scanOutside s b = .error e) : e ∈ scanErrors := by
  unfold scanOutside at h
  split_ifs at h
  simp only [bind_eq_error, rejectIf_eq_error, reduceCtorEq, and_false, exists_false,
    or_false] at h
  obtain ⟨-, rfl⟩ := h
  simp [scanErrors]

theorem mem_scanErrors_of_scanByte {s : Scan} {b : UInt8} {e : Error}
    (h : scanByte s b = .error e) : e ∈ scanErrors := by
  unfold scanByte at h
  split_ifs at h
  simp only [bind_eq_error, rejectIf_eq_error, reduceCtorEq, and_false, exists_false,
    or_false] at h
  rcases h with hstep | ⟨-, -, -, rfl⟩
  · exact mem_scanErrors_of_scanOutside hstep
  · simp [scanErrors]

theorem mem_scanErrors_of_scan {s : Scan} {bytes : List UInt8} {e : Error}
    (h : scan s bytes = .error e) : e ∈ scanErrors := by
  induction bytes generalizing s with
  | nil => cases h
  | cons b bytes ih =>
      rw [scan_cons, bind_eq_error] at h
      rcases h with hbyte | ⟨t, -, hrest⟩
      · exact mem_scanErrors_of_scanByte hbyte
      · exact ih hrest

theorem mem_of_preflight {bytes : List UInt8} {e : Error} (h : preflight bytes = .error e) :
    e ∈ .limitExceeded "bytes" maxBytes :: scanErrors := by
  simp only [preflight, bind_eq_error, rejectIf_eq_error, reduceCtorEq, and_false, exists_false,
    or_false] at h
  rcases h with ⟨-, rfl⟩ | ⟨-, -, hscan⟩
  · simp
  · exact List.mem_cons_of_mem _ (mem_scanErrors_of_scan hscan)

/-- The error names a bound that a value of this depth and of so many nodes exceeds. -/
def Exceeded (depth nodes : Nat) (e : Error) : Prop :=
  e = .limitExceeded "depth" maxDepth ∧ maxDepth < depth ∨
    e = .limitExceeded "nodes" maxNodes ∧ maxNodes < nodes

theorem Exceeded.mono {depth depth' nodes nodes' : Nat} {e : Error} (h : Exceeded depth nodes e)
    (hdepth : depth ≤ depth') (hnodes : nodes ≤ nodes') : Exceeded depth' nodes' e :=
  h.imp (fun h => ⟨h.1, h.2.trans_le hdepth⟩) fun h => ⟨h.1, h.2.trans_le hnodes⟩

section Exceeded

variable {d n : Nat} {atom : Bool} {e : Error}

theorem scan_append_eq_error {s : Scan} {xs ys : List UInt8} :
    scan s (xs ++ ys) = .error e ↔
      scan s xs = .error e ∨ ∃ t, scan s xs = .ok t ∧ scan t ys = .error e := by
  rw [scan, List.foldlM_append, bind_eq_error]
  rfl

theorem exceeded_of_scanByte {b : UInt8} {next : Scan}
    (hstep : scanOutside (.outside d n atom) b = .ok next)
    (h : scanByte (.outside d n atom) b = .error e) : Exceeded d next.nodes e := by
  simp only [scanByte, Bool.false_eq_true, if_false, hstep, ok_bind, bind_eq_error,
    rejectIf_eq_error, reduceCtorEq, and_false, exists_false, or_false] at h
  exact .inr ⟨h.2.symm, h.1⟩

theorem exceeded_of_atom {bytes : List UInt8} (hbytes : ∀ b ∈ bytes, AtomByte b)
    (h : scan (.outside d n false) bytes = .error e) : Exceeded d (n + 1) e := by
  cases bytes with
  | nil => cases h
  | cons b tail =>
      have hstep : scanOutside (.outside d n false) b = .ok (.outside d (n + 1) true) :=
        scanOutside_atomByte (hbytes b List.mem_cons_self)
      rw [scan_cons, bind_eq_error] at h
      rcases h with hbyte | ⟨t, hbyte, hrest⟩
      · exact exceeded_of_scanByte hstep hbyte
      · obtain ⟨hnext, hle⟩ := scanByte_eq_ok.1 hbyte
        obtain rfl := Except.ok.inj (hstep.symm.trans hnext)
        rw [scan_atomBytes_more hle tail fun b hb => hbytes b (List.mem_cons_of_mem _ hb)] at hrest
        cases hrest

theorem exceeded_of_printString {text : String}
    (h : scan (.outside d n atom) (Json.printString text) = .error e) : Exceeded d (n + 1) e := by
  have hopen : scanOutside (.outside d n atom) 34 = .ok (.inside d (n + 1)) := by
    simp [scanOutside]
  by_cases hn : n + 1 ≤ maxNodes
  · rw [(scan_printString text).2 ⟨hn, rfl⟩] at h
    cases h
  · rw [Json.printString, scan_cons, bind_eq_error] at h
    rcases h with hbyte | ⟨t, hbyte, -⟩
    · exact exceeded_of_scanByte hopen hbyte
    · obtain ⟨hnext, hle⟩ := scanByte_eq_ok.1 hbyte
      obtain rfl := Except.ok.inj (hopen.symm.trans hnext)
      exact absurd hle hn

theorem exceeded_of_open {b : UInt8} (hb : b = 123 ∨ b = 91) {bytes : List UInt8}
    (h : scan (.outside d n atom) (b :: bytes) = .error e) :
    Exceeded (d + 1) (n + 1) e ∨ d + 1 ≤ maxDepth ∧ n + 1 ≤ maxNodes ∧
      scan (.outside (d + 1) (n + 1) false) bytes = .error e := by
  have hquote : b ≠ 34 := by rcases hb with rfl | rfl <;> decide
  have hstep : scanOutside (.outside d n atom) b =
      (rejectIf (d + 1 > maxDepth) (.limitExceeded "depth" maxDepth) >>= fun _ =>
        .ok (.outside (d + 1) (n + 1) false)) := by
    rw [scanOutside, if_neg hquote, if_pos hb]
  by_cases hdepth : d + 1 ≤ maxDepth
  · rw [rejectIf_bind_of_not (Nat.not_lt.2 hdepth)] at hstep
    rw [scan_cons, bind_eq_error] at h
    rcases h with hbyte | ⟨t, hbyte, hrest⟩
    · exact .inl ((exceeded_of_scanByte hstep hbyte).mono (Nat.le_succ d) le_rfl)
    · obtain ⟨hnext, hnodes⟩ := scanByte_eq_ok.1 hbyte
      obtain rfl := Except.ok.inj (hstep.symm.trans hnext)
      exact .inr ⟨hdepth, hnodes, hrest⟩
  · have hbyte : scanByte (.outside d n atom) b = .error (.limitExceeded "depth" maxDepth) := by
      simp [scanByte, hstep, rejectIf, Nat.lt_of_not_le hdepth]
    rw [scan_cons, hbyte] at h
    obtain rfl := Except.error.inj h
    exact .inl (.inl ⟨rfl, Nat.lt_of_not_le hdepth⟩)

mutual
/-- The scanner stops in the compact text of a value only at a bound that the value exceeds. -/
theorem exceeded_of_print : ∀ (j : Json) (d n : Nat), j.Exact → d ≤ maxDepth →
    scan (.outside d n false) j.print = .error e → Exceeded (d + j.depth) (n + j.nodes) e
  | .null, d, n, _, _, h => exceeded_of_atom (by decide +kernel) h
  | .bool true, d, n, _, _, h => exceeded_of_atom (by decide +kernel) h
  | .bool false, d, n, _, _, h => exceeded_of_atom (by decide +kernel) h
  | .int i, d, n, _, _, h => exceeded_of_atom (printInt_atom i).2 h
  | .real _, _, _, h, _, _ => absurd h (by simp [Json.Exact])
  | .str text, d, n, _, _, h => exceeded_of_printString h
  | .arr elements, d, n, hexact, _, h => by
      rw [Json.print] at h
      rw [Json.depth, Json.nodes, ← Nat.add_assoc, ← Nat.add_assoc]
      rcases exceeded_of_open (.inr rfl) h with hopen | ⟨hdepth, hnodes, hrest⟩
      · exact hopen.mono (Nat.le_add_right _ _) (Nat.le_add_right _ _)
      · exact exceeded_of_printElements elements true _ _ hexact (fun _ => rfl) hdepth hnodes hrest
  | .obj members, d, n, hexact, _, h => by
      rw [Json.print] at h
      rw [Json.depth, Json.nodes, ← Nat.add_assoc, ← Nat.add_assoc]
      rcases exceeded_of_open (.inl rfl) h with hopen | ⟨hdepth, hnodes, hrest⟩
      · exact hopen.mono (Nat.le_add_right _ _) (Nat.le_add_right _ _)
      · exact exceeded_of_printMembers members true _ _ hexact (fun _ => rfl) hdepth hnodes hrest

theorem exceeded_of_printElements : ∀ (js : List Json) (first : Bool) (d n : Nat) {atom : Bool},
    Json.ExactElements js → (first = true → atom = false) → d ≤ maxDepth → n ≤ maxNodes →
    scan (.outside d n atom) (Json.printElements first js ++ [93]) = .error e →
      Exceeded (d + Json.depthElements js) (n + Json.nodesElements js) e
  | [], first, d, n, atom, _, _, _, hn, h => by
      rw [Json.printElements, List.nil_append, scan_close hn (.inr rfl)] at h
      cases h
  | j :: js, first, d, n, atom, hexact, ha, hd, hn, h => by
      obtain ⟨hj, hjs⟩ := hexact
      rw [Json.printElements, List.append_assoc, List.append_assoc,
        scan_elementSeparator hn ha, scan_append_eq_error] at h
      rw [Json.depthElements, Json.nodesElements, ← Nat.add_assoc]
      rcases h with helement | ⟨t, helement, hrest⟩
      · exact (exceeded_of_print j d n hj hd helement).mono (by omega) (by omega)
      · obtain ⟨-, hn₁, rfl⟩ := (scan_print j d n t hj hd).1 helement
        exact (exceeded_of_printElements js false d _ hjs (by simp) hd hn₁ hrest).mono
          (by omega) le_rfl

theorem exceeded_of_printMembers : ∀ (ms : List (String × Json)) (first : Bool) (d n : Nat)
    {atom : Bool}, Json.ExactMembers ms → (first = true → atom = false) → d ≤ maxDepth →
    n ≤ maxNodes → scan (.outside d n atom) (Json.printMembers first ms ++ [125]) = .error e →
      Exceeded (d + Json.depthMembers ms) (n + Json.nodesMembers ms) e
  | [], first, d, n, atom, _, _, _, hn, h => by
      rw [Json.printMembers, List.nil_append, scan_close hn (.inl rfl)] at h
      cases h
  | (name, j) :: ms, first, d, n, atom, hexact, ha, hd, hn, h => by
      obtain ⟨hj, hms⟩ := hexact
      have hshape : Json.printMembers first ((name, j) :: ms) ++ [125] =
          Json.separator first ++
            (Json.printString name ++ 58 :: (j.print ++ (Json.printMembers false ms ++ [125]))) := by
        simp [Json.printMembers]
      rw [hshape, scan_elementSeparator hn ha, scan_append_eq_error] at h
      rw [Json.depthMembers, Json.nodesMembers, ← Nat.add_assoc, ← Nat.add_assoc]
      rcases h with hname | ⟨t, hname, hrest⟩
      · exact (exceeded_of_printString hname).mono (by omega) (by omega)
      · obtain ⟨hn₀, rfl⟩ := (scan_printString name).1 hname
        rw [scan_separator hn₀ (by simp), scan_append_eq_error] at hrest
        rcases hrest with hvalue | ⟨t, hvalue, hrest⟩
        · exact (exceeded_of_print j d _ hj hd hvalue).mono (by omega) (by omega)
        · obtain ⟨-, hn₁, rfl⟩ := (scan_print j d _ t hj hd).1 hvalue
          exact (exceeded_of_printMembers ms false d _ hms (by simp) hd hn₁ hrest).mono
            (by omega) le_rfl
end

end Exceeded

/-- A value whose compact text is refused exceeds the bound that the error names. -/
theorem exceeded_of_preflight {j : Json} (hj : j.Exact) {e : Error}
    (h : preflight j.print = .error e) :
    e = .limitExceeded "bytes" maxBytes ∧ maxBytes < j.print.length ∨
      Exceeded j.depth j.nodes e := by
  simp only [preflight, bind_eq_error, rejectIf_eq_error, reduceCtorEq, and_false, exists_false,
    or_false] at h
  rcases h with ⟨hbytes, rfl⟩ | ⟨-, -, hscan⟩
  · exact .inl ⟨rfl, hbytes⟩
  · have hexceeded := exceeded_of_print j 0 0 hj (Nat.zero_le _) hscan
    rw [Nat.zero_add, Nat.zero_add] at hexceeded
    exact .inr hexceeded

theorem isLimit_of_boundedEncode {j : Json} {e : Error} (h : boundedEncode j = .error e) :
    e.isLimit = true := by
  simp only [boundedEncode, bind_eq_error, rejectIf_eq_error, reduceCtorEq, and_false,
    exists_false, or_false] at h
  rcases h with ⟨-, rfl⟩ | ⟨-, -, hpre⟩
  · rfl
  · have hmem := mem_of_preflight hpre
    simp only [scanErrors, List.mem_cons, List.not_mem_nil, or_false] at hmem
    rcases hmem with rfl | rfl | rfl <;> rfl

end Evobase
