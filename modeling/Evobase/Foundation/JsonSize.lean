import Evobase.Foundation.JsonFields

/-!
# Comparing the sizes of JSON values

`Smaller j k` says that `j` is at most as long, as deep and as large as `k`. Lists and
maps are compared by key: every element of the smaller one has an element of the same
key in the larger one that is not smaller.
-/

namespace Foundation

section Keyed

variable {α K : Type}

/-- Elements with pairwise different keys, each dominated by an element of the same key, have
a smaller sum. -/
theorem sum_le_of_keyed {key : α → K} (size : α → Nat) {l m : List α} (hkeys : (l.map key).Nodup)
    (h : ∀ a ∈ l, ∃ b ∈ m, key b = key a ∧ size a ≤ size b) :
    (l.map size).sum ≤ (m.map size).sum := by
  induction l generalizing m with
  | nil => simp
  | cons a l ih =>
      obtain ⟨hfresh, hrest⟩ := List.nodup_cons.1 hkeys
      obtain ⟨b, hb, hkey, hsize⟩ := h a (by simp)
      obtain ⟨pre, post, rfl⟩ := List.append_of_mem hb
      have htail : (l.map size).sum ≤ ((pre ++ post).map size).sum := by
        refine ih hrest fun c hc => ?_
        obtain ⟨d, hd, hkey', hsize'⟩ := h c (by simp [hc])
        have hne : d ≠ b := by
          rintro rfl
          rw [hkey] at hkey'
          exact hfresh (hkey' ▸ List.mem_map_of_mem hc)
        simp only [List.mem_append, List.mem_cons, hne, false_or] at hd
        exact ⟨d, List.mem_append.2 hd, hkey', hsize'⟩
      simp only [List.map_append, List.map_cons, List.sum_append, List.sum_cons] at htail ⊢
      omega

theorem length_le_of_keyed {key : α → K} {l m : List α} (hkeys : (l.map key).Nodup)
    (h : ∀ a ∈ l, ∃ b ∈ m, key b = key a) : l.length ≤ m.length := by
  have hsum := sum_le_of_keyed (fun _ => 1) hkeys fun a ha => by
    obtain ⟨b, hb, hkey⟩ := h a ha
    exact ⟨b, hb, hkey, le_rfl⟩
  simpa using hsum

end Keyed

namespace Json

/-- One value is at most as long, as deep and as large as another. -/
structure Smaller (j k : Json) : Prop where
  bytes : j.print.length ≤ k.print.length
  depth : j.depth ≤ k.depth
  nodes : j.nodes ≤ k.nodes

@[refl] theorem Smaller.refl (j : Json) : Smaller j j := ⟨le_rfl, le_rfl, le_rfl⟩

theorem length_escape_le (c : Char) : (escape c).length ≤ 6 * (String.utf8EncodeChar c).length := by
  have hpos : 0 < (String.utf8EncodeChar c).length := by
    rw [String.length_utf8EncodeChar]
    exact c.utf8Size_pos
  unfold escape
  rw [String.length_utf8EncodeChar] at hpos ⊢
  split_ifs <;> simp <;> omega

theorem length_printString_le (s : String) :
    (printString s).length ≤ 6 * (utf8 s.toList).length + 2 := by
  have hbody : ∀ cs : List Char, (cs.flatMap escape).length ≤ 6 * (utf8 cs).length := by
    intro cs
    induction cs with
    | nil => simp
    | cons c cs ih =>
        have hhead := length_escape_le c
        rw [List.flatMap_cons, List.length_append, utf8, List.flatMap_cons, List.length_append]
        rw [utf8] at ih
        omega
  rw [printString, List.length_cons, List.length_append]
  simpa using hbody s.toList

theorem length_print_arr (js : List Json) :
    (Json.arr js).print.length = 2 + (js.map fun j => j.print.length).sum + (js.length - 1) := by
  simp only [print, List.length_cons, List.length_append, (length_printElements js).1]
  simp
  omega

theorem length_printMembers (ms : List (String × Json)) :
    (printMembers true ms).length =
        (ms.map fun m => (printString m.1).length + 1 + m.2.print.length).sum + (ms.length - 1) ∧
      (printMembers false ms).length =
        (ms.map fun m => (printString m.1).length + 1 + m.2.print.length).sum + ms.length := by
  induction ms with
  | nil => simp [printMembers]
  | cons m rest ih => simp [printMembers, separator, ih.2]; omega

theorem length_print_obj (ms : List (String × Json)) :
    (Json.obj ms).print.length =
      2 + (ms.map fun m => (printString m.1).length + 1 + m.2.print.length).sum +
        (ms.length - 1) := by
  simp only [print, List.length_cons, List.length_append, (length_printMembers ms).1]
  simp
  omega

theorem nodesMembers_eq_sum (ms : List (String × Json)) :
    nodesMembers ms = (ms.map fun m => 1 + m.2.nodes).sum := by
  induction ms with
  | nil => rfl
  | cons m rest ih => simp [nodesMembers, ih]

theorem depth_le_depthElements {j : Json} {js : List Json} (h : j ∈ js) :
    j.depth ≤ depthElements js :=
  depthElements_le_iff.1 le_rfl j h

theorem depth_le_depthMembers {m : String × Json} {ms : List (String × Json)} (h : m ∈ ms) :
    m.2.depth ≤ depthMembers ms :=
  depthMembers_le_iff.1 le_rfl m h

section Lists

variable {α K : Type} {k : α → K}

/-- Arrays are compared by the keys of their elements. -/
theorem smaller_ofList {write : α → Json} {l m : List α} (hkeys : (l.map k).Nodup)
    (h : ∀ a ∈ l, ∃ b ∈ m, k b = k a ∧ Smaller (write a) (write b)) :
    Smaller (ofList write l) (ofList write m) where
  bytes := by
    have hsum := sum_le_of_keyed (fun a => (write a).print.length) hkeys fun a ha =>
      (h a ha).imp fun b hb => ⟨hb.1, hb.2.1, hb.2.2.bytes⟩
    have hlength := length_le_of_keyed hkeys fun a ha =>
      (h a ha).imp fun b hb => ⟨hb.1, hb.2.1⟩
    simp only [ofList, length_print_arr, List.map_map, Function.comp_def, List.length_map]
    omega
  depth := by
    simp only [ofList, depth, Nat.add_le_add_iff_left, depthElements_le_iff, List.mem_map]
    rintro _ ⟨a, ha, rfl⟩
    obtain ⟨b, hb, -, hsmaller⟩ := h a ha
    exact hsmaller.depth.trans (depth_le_depthElements (List.mem_map_of_mem hb))
  nodes := by
    have hsum := sum_le_of_keyed (fun a => (write a).nodes) hkeys fun a ha =>
      (h a ha).imp fun b hb => ⟨hb.1, hb.2.1, hb.2.2.nodes⟩
    simpa [ofList, nodes, nodesElements_eq_sum, List.map_map, Function.comp_def] using hsum

theorem smaller_obj_map {g : α → String × Json} {l m : List α} (hkeys : (l.map k).Nodup)
    (h : ∀ a ∈ l, ∃ b ∈ m, k b = k a ∧ (g b).1 = (g a).1 ∧
      Smaller (g a).2 (g b).2) :
    Smaller (.obj (l.map g)) (.obj (m.map g)) where
  bytes := by
    have hsum := sum_le_of_keyed
      (fun a => (printString (g a).1).length + 1 + (g a).2.print.length) hkeys
      fun a ha => (h a ha).imp fun b hb => ⟨hb.1, hb.2.1, by
        have := hb.2.2.2.bytes
        rw [hb.2.2.1]
        omega⟩
    have hlength := length_le_of_keyed hkeys fun a ha =>
      (h a ha).imp fun b hb => ⟨hb.1, hb.2.1⟩
    simp only [length_print_obj, List.map_map, Function.comp_def, List.length_map]
    omega
  depth := by
    simp only [depth, Nat.add_le_add_iff_left, depthMembers_le_iff, List.mem_map]
    rintro _ ⟨a, ha, rfl⟩
    obtain ⟨b, hb, -, -, hsmaller⟩ := h a ha
    exact hsmaller.depth.trans (depth_le_depthMembers (List.mem_map_of_mem hb))
  nodes := by
    have hsum := sum_le_of_keyed (fun a => 1 + (g a).2.nodes) hkeys fun a ha =>
      (h a ha).imp fun b hb => ⟨hb.1, hb.2.1, Nat.add_le_add_left hb.2.2.2.nodes 1⟩
    simpa [nodes, nodesMembers_eq_sum, List.map_map, Function.comp_def] using hsum

end Lists

theorem smaller_ofMap {K V : Type} [LinearOrder K] {name : K → String} {write : V → Json}
    {m n : OrdMap K V}
    (h : ∀ k v, m.get? k = some v → ∃ w, n.get? k = some w ∧ Smaller (write v) (write w)) :
    Smaller (ofMap name write m) (ofMap name write n) := by
  refine smaller_obj_map (k := fun e : K × V => e.1) m.keys_nodup ?_
  rintro ⟨k, v⟩ hmem
  obtain ⟨w, hw, hsmaller⟩ := h k v (OrdMap.mem_entries_iff.1 hmem)
  exact ⟨(k, w), OrdMap.mem_entries_iff.2 hw, rfl, rfl, hsmaller⟩

end Json

end Foundation
