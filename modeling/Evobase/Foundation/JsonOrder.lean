import Evobase.Foundation.JsonFields

/-!
# Values in name order

`Json.sortKeys` forgets the order of the members of an object and nothing else: the fields of
a record and the entries of a map can be told from the sorted value.
-/

namespace Foundation

namespace Json

theorem entries_ofList_subset {V : Type} {l : List (String × V)} {e : String × V}
    (h : e ∈ (OrdMap.ofList l).entries) : e ∈ l := by
  have hget : (OrdMap.ofList l).get? e.1 = some e.2 := OrdMap.mem_entries_iff.1 h
  rw [OrdMap.ofList, OrdMap.get?_foldl_insert, OrdMap.get?_empty, Option.or_none] at hget
  obtain ⟨pre, post, heq, -⟩ := List.lookup_eq_some_iff.1 hget
  have hmem : e ∈ l.reverse := by
    rw [heq]
    exact List.mem_append_right _ List.mem_cons_self
  exact List.mem_reverse.1 hmem

mutual
theorem exact_sortKeys : ∀ {j : Json}, j.Exact → (sortKeys j).Exact
  | .null, _ => trivial
  | .bool _, _ => trivial
  | .int _, _ => trivial
  | .real _, h => h.elim
  | .str _, _ => trivial
  | .arr js, h => by
      rw [sortKeys]
      exact exact_sortElements (show ExactElements js from h)
  | .obj ms, h => by
      rw [sortKeys, Exact, exactMembers_iff]
      intro m hm
      exact exactMembers_iff.1 (exact_sortMembers (show ExactMembers ms from h)) m
        (entries_ofList_subset hm)

theorem exact_sortElements : ∀ {js : List Json}, ExactElements js → ExactElements (sortElements js)
  | [], _ => trivial
  | _ :: _, h => ⟨exact_sortKeys h.1, exact_sortElements h.2⟩

theorem exact_sortMembers : ∀ {ms : List (String × Json)}, ExactMembers ms →
    ExactMembers (sortMembers ms)
  | [], _ => trivial
  | (_, _) :: _, h => ⟨exact_sortKeys h.1, exact_sortMembers h.2⟩
end

theorem lookup_sortMembers (ms : List (String × Json)) (name : String) :
    (sortMembers ms).lookup name = (ms.lookup name).map sortKeys := by
  induction ms with
  | nil => rfl
  | cons m rest ih =>
      obtain ⟨other, j⟩ := m
      rw [sortMembers, lookup_cons_ite, lookup_cons_ite, ih]
      split <;> rfl

theorem map_sortKeys_fields {fields : List (String × Option Json)}
    (h : (fields.map (·.1)).Nodup) : fields.map (fun f => f.2.map sortKeys) =
      (fields.map (·.1)).map (OrdMap.ofList (sortMembers (present fields))).get? := by
  have hnames : ((sortMembers (present fields)).map (·.1)).Nodup := by
    rw [sortMembers_eq_map, List.map_map]
    exact nodup_present h
  rw [List.map_map]
  refine List.map_congr_left fun f hf => ?_
  rw [Function.comp_apply, OrdMap.get?_ofList hnames, lookup_sortMembers, lookup_present h hf]

theorem fields_eq_of_sortKeys_eq {fields fields' : List (String × Option Json)}
    (heq : sortKeys (ofFields fields) = sortKeys (ofFields fields'))
    (hnames : fields.map (·.1) = fields'.map (·.1)) (h : (fields.map (·.1)).Nodup) :
    fields.map (fun f => f.2.map sortKeys) = fields'.map fun f => f.2.map sortKeys := by
  simp only [ofFields, sortKeys, obj.injEq] at heq
  rw [map_sortKeys_fields h, map_sortKeys_fields (hnames ▸ h), hnames, OrdMap.ext_entries heq]

theorem fields?_sortKeys_ofFields {fields : List (String × Option Json)} {names : List String}
    (hnames : fields.map (·.1) = names) (h : names.Nodup) :
    fields? names (sortKeys (ofFields fields)) = some (fields.map fun f => f.2.map sortKeys) := by
  subst hnames
  rw [map_sortKeys_fields h, ofFields, sortKeys, fields?, if_pos]
  · rfl
  · refine ⟨OrdMap.keys_nodup _, fun m hm => ?_⟩
    have hmem := entries_ofList_subset hm
    rw [sortMembers_eq_map] at hmem
    obtain ⟨member, hmember, rfl⟩ := List.mem_map.1 hmem
    exact List.mem_map_of_mem (mem_present hmember)

section Lists

variable {α : Type} {write : α → Json} {read : Json → Option α} {l : List α}

theorem list?_sortKeys_ofList (h : ∀ a ∈ l, read (sortKeys (write a)) = some a) :
    list? read (sortKeys (ofList write l)) = some l := by
  rw [ofList, sortKeys, sortElements_eq_map, List.map_map]
  exact list?_ofList h

theorem listOrEmpty_map_unlessEmpty (h : ∀ a ∈ l, read (sortKeys (write a)) = some a) :
    listOrEmpty read ((unlessEmpty write l).map sortKeys) = some l := by
  by_cases hl : l = []
  · simp [unlessEmpty, listOrEmpty, hl]
  · simpa [unlessEmpty, listOrEmpty, hl] using list?_sortKeys_ofList h

end Lists

section Sets

variable {K : Type} [LinearOrder K] {write : K → Json} {read : Json → Option K} {s : OrdSet K}

theorem set?_sortKeys_ofSet (h : ∀ k ∈ s.keys, read (sortKeys (write k)) = some k) :
    set? read (sortKeys (ofSet write s)) = some s := by
  have hlist : list? read (sortKeys (ofSet write s)) = some s.keys := list?_sortKeys_ofList h
  have hkeys : s.keys.map (fun k => (k, ())) = s.entries := by
    rw [OrdMap.keys, List.map_map]
    exact List.map_id _
  rw [set?, hlist, Option.map_some, OrdSet.ofList, hkeys, OrdMap.ofList_entries]

theorem setOrEmpty_map_setUnlessEmpty (h : ∀ k ∈ s.keys, read (sortKeys (write k)) = some k) :
    setOrEmpty read ((setUnlessEmpty write s).map sortKeys) = some s := by
  by_cases hs : s.keys = []
  · have hempty : s = OrdMap.empty := OrdMap.ext_entries (List.map_eq_nil_iff.1 hs)
    simp [setUnlessEmpty, unlessEmpty, setOrEmpty, hempty, OrdMap.keys, OrdMap.empty]
  · rw [setUnlessEmpty, unlessEmpty, if_neg hs]
    exact set?_sortKeys_ofSet h

end Sets

theorem eq_of_sortKeys_ofMap_eq {K V : Type} [LinearOrder K] {name : K → String} {write : V → Json}
    (hname : ∀ {a b : K}, a < b → name a < name b) (hinj : Function.Injective name)
    {m n : OrdMap K V} (hwrite : ∀ v w, sortKeys (write v) = sortKeys (write w) → v = w)
    (heq : sortKeys (ofMap name write m) = sortKeys (ofMap name write n)) : m = n := by
  have hsorted : ∀ m : OrdMap K V, sortKeys (ofMap name write m) =
      .obj (m.entries.map fun e => (name e.1, sortKeys (write e.2))) := by
    intro m
    rw [ofMap, sortKeys_obj_of_sorted, List.map_map]
    · rfl
    · rw [List.pairwise_map]
      exact m.sorted.imp hname
  rw [hsorted, hsorted, obj.injEq] at heq
  apply OrdMap.ext_entries
  refine List.map_injective_iff.2 ?_ heq
  rintro ⟨a, v⟩ ⟨b, w⟩ hentry
  obtain ⟨hab, hvw⟩ := Prod.mk.inj hentry
  exact Prod.ext (hinj hab) (hwrite v w hvw)

end Json

end Foundation
