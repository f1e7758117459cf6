import Evobase.Foundation.JsonOrder
import Evobase.Foundation.JsonSize
import Evobase.Foundation.JsonTokens

/-!
# Sizes of what records write

`Json.Neat d j` says that no object of the value repeats a name and that containers are nested at
most `d` deep. A record that is written field by field is one level deeper than its deepest
field. Names that are not repeated are kept when the members are put in order, so the sorted value
is as long as the value (`length_print_sortKeys`).
-/

namespace Foundation

namespace Json

structure Neat (d : Nat) (j : Json) : Prop where
  unique : j.UniqueKeys
  depth : j.depth ≤ d

variable {d d' : Nat} {j : Json}

theorem Neat.mono (h : j.Neat d) (hle : d ≤ d') : j.Neat d' := ⟨h.unique, h.depth.trans hle⟩

@[simp] theorem neat_str (d : Nat) (s : String) : (Json.str s).Neat d := ⟨trivial, Nat.zero_le d⟩

@[simp] theorem neat_bool (d : Nat) (b : Bool) : (Json.bool b).Neat d := ⟨trivial, Nat.zero_le d⟩

@[simp] theorem neat_ofI64 (d : Nat) (n : I64) : (ofI64 n).Neat d := ⟨trivial, Nat.zero_le d⟩

@[simp] theorem neat_ofU64 (d : Nat) (n : U64) : (ofU64 n).Neat d := ⟨trivial, Nat.zero_le d⟩

@[simp] theorem neat_ofU32 (d : Nat) (n : U32) : (ofU32 n).Neat d := ⟨trivial, Nat.zero_le d⟩

@[simp] theorem neat_orNull_str (d : Nat) (o : Option String) : (orNull .str o).Neat d := by
  cases o <;> exact ⟨trivial, Nat.zero_le d⟩

section Written

variable {α K V : Type}

theorem neat_ofList {write : α → Json} {l : List α} (h : ∀ a ∈ l, (write a).Neat d) :
    (ofList write l).Neat (d + 1) where
  unique := uniqueKeys_ofList fun a ha => (h a ha).unique
  depth := by
    have hdepth : depthElements (l.map write) ≤ d := by
      rw [depthElements_le_iff]
      intro j hj
      obtain ⟨a, ha, rfl⟩ := List.mem_map.1 hj
      exact (h a ha).depth
    rw [ofList, depth]
    omega

theorem neat_unlessEmpty {write : α → Json} {l : List α} (h : ∀ a ∈ l, (write a).Neat d) :
    ∀ j ∈ unlessEmpty write l, j.Neat (d + 1) := by
  intro j hj
  unfold unlessEmpty at hj
  split_ifs at hj
  · cases hj
  · obtain rfl := Option.some.inj hj
    exact neat_ofList h

theorem neat_ofMap [LinearOrder K] {name : K → String} (hname : Function.Injective name)
    {write : V → Json} {m : OrdMap K V} (h : ∀ v, (write v).Neat d) :
    (ofMap name write m).Neat (d + 1) where
  unique := uniqueKeys_ofMap hname fun v => (h v).unique
  depth := by
    have hdepth : depthMembers (m.entries.map fun e => (name e.1, write e.2)) ≤ d := by
      rw [depthMembers_le_iff]
      intro member hmem
      obtain ⟨e, -, rfl⟩ := List.mem_map.1 hmem
      exact (h e.2).depth
    rw [ofMap, depth]
    omega

theorem neat_ofFields {fields : List (String × Option Json)} (hnames : (fields.map (·.1)).Nodup)
    (h : ∀ f ∈ fields, ∀ j ∈ f.2, j.Neat d) : (ofFields fields).Neat (d + 1) where
  unique := uniqueKeys_ofFields hnames fun f hf j hj => (h f hf j hj).unique
  depth := by
    have hdepth : depthMembers (present fields) ≤ d := by
      rw [depthMembers_le_iff]
      intro m hm
      exact (h _ (mem_present hm) m.2 rfl).depth
    rw [ofFields, depth]
    omega

end Written

theorem print_str (s : String) : (Json.str s).print = printString s := rfl

theorem length_utf8_toList (s : String) : (utf8 s.toList).length = s.utf8ByteSize := by
  have hbytes : (utf8 s.toList).toByteArray = s.toByteArray :=
    (String.utf8Encode_toList : s.toList.utf8Encode = s.toByteArray)
  rw [← List.size_toByteArray, hbytes]
  rfl

theorem length_printString_of_plain {s : String}
    (h : ∀ c ∈ s.toList, escape c = String.utf8EncodeChar c) :
    (printString s).length = s.utf8ByteSize + 2 := by
  have hbody : s.toList.flatMap escape = utf8 s.toList := by
    rw [utf8, List.flatMap, List.flatMap, List.map_congr_left h]
  rw [printString, hbody, List.length_cons, List.length_append, length_utf8_toList]
  rfl

theorem length_escape_ge (c : Char) : (String.utf8EncodeChar c).length ≤ (escape c).length := by
  have hsmall : c.toNat ≤ 127 → c.utf8Size = 1 := fun h =>
    Char.utf8Size_eq_one_iff.2 (UInt32.le_iff_toNat_le.2 h)
  unfold escape
  rw [String.length_utf8EncodeChar]
  split_ifs
  all_goals first
    | exact (String.length_utf8EncodeChar c).ge
    | rw [hsmall (by omega)]
      simp

theorem length_printString_ge (s : String) : s.utf8ByteSize + 2 ≤ (printString s).length := by
  have hbody : ∀ cs : List Char, (utf8 cs).length ≤ (cs.flatMap escape).length := by
    intro cs
    induction cs with
    | nil => rfl
    | cons c cs ih =>
        have hhead := length_escape_ge c
        rw [List.flatMap_cons, List.length_append, utf8, List.flatMap_cons, List.length_append]
        rw [utf8] at ih
        omega
  have hlength := hbody s.toList
  rw [length_utf8_toList] at hlength
  rw [printString, List.length_cons, List.length_append, List.length_singleton]
  omega

theorem length_print_member_le {name : String} {j : Json} {ms : List (String × Json)}
    (h : (name, j) ∈ ms) :
    (printString name).length + 1 + j.print.length + 2 ≤ (Json.obj ms).print.length := by
  have hsum := List.le_sum_of_mem (List.mem_map_of_mem
    (f := fun m : String × Json => (printString m.1).length + 1 + m.2.print.length) h)
  rw [length_print_obj]
  dsimp only at hsum
  omega

theorem entries_ofList_perm {V : Type} {ms : List (String × V)} (h : (ms.map (·.1)).Nodup) :
    (OrdMap.ofList ms).entries.Perm ms := by
  have hentries : (OrdMap.ofList ms).entries.Nodup := .of_map _ (OrdMap.ofList ms).keys_nodup
  rw [List.perm_ext_iff_of_nodup hentries (.of_map _ h)]
  rintro ⟨name, v⟩
  rw [OrdMap.mem_entries_iff, OrdMap.get?_ofList_eq_some_iff h]

/-- Sorting the members of a value does not change its length. -/
theorem length_print_sortKeys (j : Json) (h : j.UniqueKeys) :
    (sortKeys j).print.length = j.print.length := by
  induction j using Json.induct with
  | null => rfl
  | bool b => rfl
  | int n => rfl
  | real s => rfl
  | str s => rfl
  | arr js ih =>
      have hlengths : (js.map sortKeys).map (fun j => j.print.length) =
          js.map fun j => j.print.length := by
        rw [List.map_map]
        exact List.map_congr_left fun j hj => ih j hj (uniqueElements_iff.1 h j hj)
      rw [sortKeys, sortElements_eq_map, length_print_arr, length_print_arr, hlengths,
        List.length_map]
  | obj ms ih =>
      have hnames : ((sortMembers ms).map (·.1)).Nodup := by
        rw [sortMembers_eq_map, List.map_map]
        exact h.1
      have hperm := entries_ofList_perm hnames
      have hlengths : (sortMembers ms).map
          (fun m => (printString m.1).length + 1 + m.2.print.length) =
            ms.map fun m => (printString m.1).length + 1 + m.2.print.length := by
        rw [sortMembers_eq_map, List.map_map]
        refine List.map_congr_left fun m hm => ?_
        rw [Function.comp_apply, ih m hm (uniqueMembers_iff.1 h.2 m hm)]
      rw [sortKeys, length_print_obj, length_print_obj, (hperm.map _).sum_eq, hlengths,
        hperm.length_eq, sortMembers_eq_map, List.length_map]

end Json

end Foundation
