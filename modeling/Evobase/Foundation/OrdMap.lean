import Mathlib.Data.List.Sort
import Mathlib.Data.Prod.Lex
import Mathlib.Tactic

/-!
# Ordered maps and canonical lists

`OrdMap K V` is a finite map kept as the list of its entries in strictly
increasing key order, so two maps with the same lookups are equal and the list
of entries is the order in which the map is iterated. `OrdSet K` is the map
without values. `sortBy key l` is the stable sort of a list by a key; on a list
whose keys are pairwise different it does not depend on the order of the list.
-/

namespace Foundation

section Lookup

variable {A V : Type} [DecidableEq A] [BEq A] [LawfulBEq A]

theorem lookup_cons_ite (k a : A) (w : V) (l : List (A × V)) :
    ((a, w) :: l).lookup k = if k = a then some w else l.lookup k := by
  by_cases h : k = a
  · simp [h]
  · rw [List.lookup_cons, beq_false_of_ne h]
    simp [h]

theorem lookup_eq_some_iff_mem {l : List (A × V)} (h : (l.map (·.1)).Nodup) {k : A} {v : V} :
    l.lookup k = some v ↔ (k, v) ∈ l := by
  induction l with
  | nil => simp
  | cons e rest ih =>
      obtain ⟨hfresh, hrest⟩ := List.nodup_cons.1 h
      obtain ⟨a, w⟩ := e
      rw [lookup_cons_ite]
      by_cases hk : k = a
      · have hnot : (a, v) ∉ rest := fun hmem => hfresh (List.mem_map.2 ⟨(a, v), hmem, rfl⟩)
        simp [hk, hnot, eq_comm]
      · simp [hk, ih hrest]

end Lookup

theorem find?_key_eq_some {α A : Type} [DecidableEq A] {key : α → A} {l : List α}
    (h : (l.map key).Nodup) {a : α} (ha : a ∈ l) :
    (l.find? fun b => key b = key a) = some a := by
  cases hfind : l.find? fun b => key b = key a with
  | none => exact absurd (by simp) (List.find?_eq_none.1 hfind a ha)
  | some b =>
      have hkey : key b = key a := by simpa using List.find?_some hfind
      rw [List.inj_on_of_nodup_map h (List.mem_of_find?_eq_some hfind) ha hkey]

variable {K V W : Type} [LinearOrder K]

/-- Set the value of `k` in a list of entries in increasing key order. -/
def insertEntry (k : K) (v : V) : List (K × V) → List (K × V)
  | [] => [(k, v)]
  | (a, w) :: rest =>
      if k < a then (k, v) :: (a, w) :: rest
      else if k = a then (k, v) :: rest
      else (a, w) :: insertEntry k v rest

theorem mem_of_mem_insertEntry {k : K} {v : V} {l : List (K × V)} {e : K × V}
    (h : e ∈ insertEntry k v l) : e = (k, v) ∨ e ∈ l := by
  induction l with
  | nil => simpa [insertEntry] using h
  | cons head rest ih =>
      obtain ⟨a, w⟩ := head
      rw [insertEntry] at h
      split_ifs at h <;> grind

theorem insertEntry_sorted (k : K) (v : V) {l : List (K × V)}
    (h : l.Pairwise fun a b => a.1 < b.1) :
    (insertEntry k v l).Pairwise fun a b => a.1 < b.1 := by
  induction l with
  | nil => simp [insertEntry]
  | cons head rest ih =>
      obtain ⟨a, w⟩ := head
      obtain ⟨hhead, hrest⟩ := List.pairwise_cons.1 h
      rw [insertEntry]
      split_ifs with hlt heq
      · refine List.pairwise_cons.2 ⟨?_, h⟩
        intro e he
        rcases List.mem_cons.1 he with rfl | he
        · exact hlt
        · exact lt_trans hlt (hhead e he)
      · subst heq
        exact List.pairwise_cons.2 ⟨hhead, hrest⟩
      · refine List.pairwise_cons.2 ⟨?_, ih hrest⟩
        intro e he
        rcases mem_of_mem_insertEntry he with rfl | he
        · exact lt_of_le_of_ne (not_lt.1 hlt) (Ne.symm heq)
        · exact hhead e he

theorem lookup_insertEntry (k j : K) (v : V) (l : List (K × V)) :
    (insertEntry k v l).lookup j = if j = k then some v else l.lookup j := by
  induction l with
  | nil => rw [insertEntry, lookup_cons_ite]
  | cons head rest ih =>
      obtain ⟨a, w⟩ := head
      rw [insertEntry]
      split_ifs with hlt heq <;> simp only [lookup_cons_ite, ih] <;> grind

/-- A finite map, kept as its entries in strictly increasing key order. -/
structure OrdMap (K V : Type) [LinearOrder K] where
  entries : List (K × V)
  sorted : entries.Pairwise fun a b => a.1 < b.1

namespace OrdMap

@[ext] theorem ext_entries {m n : OrdMap K V} (h : m.entries = n.entries) : m = n := by
  cases m; cases n; simpa using h

instance [DecidableEq V] : DecidableEq (OrdMap K V) := fun m n =>
  decidable_of_iff (m.entries = n.entries) ⟨ext_entries, fun h => h ▸ rfl⟩

def empty : OrdMap K V := ⟨[], List.Pairwise.nil⟩

instance : Inhabited (OrdMap K V) := ⟨empty⟩

def get? (m : OrdMap K V) (k : K) : Option V := m.entries.lookup k

def keys (m : OrdMap K V) : List K := m.entries.map (·.1)

def values (m : OrdMap K V) : List V := m.entries.map (·.2)

def insert (m : OrdMap K V) (k : K) (v : V) : OrdMap K V :=
  ⟨insertEntry k v m.entries, insertEntry_sorted k v m.sorted⟩

def erase (m : OrdMap K V) (k : K) : OrdMap K V :=
  ⟨m.entries.filter (·.1 ≠ k), m.sorted.filter _⟩

def extend (m n : OrdMap K V) : OrdMap K V :=
  n.entries.foldl (fun acc e => acc.insert e.1 e.2) m

def ofList (l : List (K × V)) : OrdMap K V :=
  l.foldl (fun acc e => acc.insert e.1 e.2) empty

def mapEntries (f : K → V → W) (m : OrdMap K V) : OrdMap K W :=
  ⟨m.entries.map fun e => (e.1, f e.1 e.2), by
    simpa [List.pairwise_map] using m.sorted⟩

def restrict (m : OrdMap K V) (p : K → Prop) [DecidablePred p] : OrdMap K V :=
  ⟨m.entries.filter fun e => p e.1, m.sorted.filter _⟩

theorem keys_sorted (m : OrdMap K V) : m.keys.Pairwise (· < ·) := by
  simpa [keys, List.pairwise_map] using m.sorted

theorem keys_nodup (m : OrdMap K V) : m.keys.Nodup :=
  m.keys_sorted.imp ne_of_lt

/-- An entry of the map is a key with its value. -/
theorem mem_entries_iff {m : OrdMap K V} {k : K} {v : V} :
    (k, v) ∈ m.entries ↔ m.get? k = some v := by
  obtain ⟨entries, sorted⟩ := m
  simp only [get?]
  induction entries with
  | nil => simp
  | cons head rest ih =>
      obtain ⟨a, w⟩ := head
      obtain ⟨hhead, hrest⟩ := List.pairwise_cons.1 sorted
      by_cases hka : k = a
      · subst hka
        have hnot : (k, v) ∉ rest := fun hmem => lt_irrefl k (hhead (k, v) hmem)
        simp [hnot, eq_comm]
      · simp [lookup_cons_ite, hka, ih hrest]

theorem mem_keys_iff {m : OrdMap K V} {k : K} : k ∈ m.keys ↔ ∃ v, m.get? k = some v := by
  simp [keys, ← mem_entries_iff]

theorem get?_eq_none_iff {m : OrdMap K V} {k : K} : m.get? k = none ↔ k ∉ m.keys := by
  rw [mem_keys_iff]
  cases m.get? k <;> simp

theorem mem_values_iff {m : OrdMap K V} {v : V} : v ∈ m.values ↔ ∃ k, m.get? k = some v := by
  simp [values, ← mem_entries_iff]

theorem ext_get? {m n : OrdMap K V} (h : ∀ k, m.get? k = n.get? k) : m = n := by
  apply ext_entries
  have irrefl : Std.Irrefl fun a b : K × V => a.1 < b.1 := ⟨fun a => lt_irrefl a.1⟩
  have antisymm : Std.Antisymm fun a b : K × V => a.1 < b.1 :=
    ⟨fun a b hab hba => absurd hab (not_lt.2 hba.le)⟩
  refine List.Pairwise.eq_of_mem_iff m.sorted n.sorted ?_
  rintro ⟨k, v⟩
  rw [mem_entries_iff, mem_entries_iff, h k]

@[simp] theorem get?_empty (k : K) : (empty : OrdMap K V).get? k = none := rfl

theorem get?_insert (m : OrdMap K V) (k j : K) (v : V) :
    (m.insert k v).get? j = if j = k then some v else m.get? j :=
  lookup_insertEntry k j v m.entries

@[simp] theorem get?_insert_self (m : OrdMap K V) (k : K) (v : V) :
    (m.insert k v).get? k = some v := by
  simp [get?_insert]

theorem get?_insert_of_ne (m : OrdMap K V) {k j : K} (v : V) (h : j ≠ k) :
    (m.insert k v).get? j = m.get? j := by
  simp [get?_insert, h]

theorem get?_erase (m : OrdMap K V) (k j : K) :
    (m.erase k).get? j = if j = k then none else m.get? j := by
  apply Option.ext
  intro v
  rw [← mem_entries_iff]
  by_cases hj : j = k <;> simp [erase, List.mem_filter, mem_entries_iff, hj]

@[simp] theorem get?_mapEntries (f : K → V → W) (m : OrdMap K V) (k : K) :
    (m.mapEntries f).get? k = (m.get? k).map (f k) := by
  apply Option.ext
  intro w
  rw [← mem_entries_iff]
  simp only [mapEntries, List.mem_map, Prod.mk.injEq, Prod.exists, mem_entries_iff,
    Option.map_eq_some_iff]
  constructor
  · rintro ⟨a, v, hv, rfl, rfl⟩
    exact ⟨v, hv, rfl⟩
  · rintro ⟨v, hv, rfl⟩
    exact ⟨k, v, hv, rfl, rfl⟩

theorem get?_restrict (m : OrdMap K V) (p : K → Prop) [DecidablePred p] (k : K) :
    (m.restrict p).get? k = if p k then m.get? k else none := by
  refine Option.ext fun v => ?_
  rw [← mem_entries_iff, restrict, List.mem_filter, mem_entries_iff]
  by_cases hk : p k <;> simp [hk]

theorem get?_foldl_insert (l : List (K × V)) (m : OrdMap K V) (k : K) :
    (l.foldl (fun acc e => acc.insert e.1 e.2) m).get? k =
      (l.reverse.lookup k).or (m.get? k) := by
  induction l generalizing m with
  | nil => simp
  | cons e rest ih =>
      rw [List.foldl_cons, ih, List.reverse_cons, List.lookup_append, get?_insert,
        lookup_cons_ite, Option.or_assoc]
      by_cases hk : k = e.1 <;> simp [hk]

theorem lookup_reverse {l : List (K × V)} (h : (l.map (·.1)).Nodup) (k : K) :
    l.reverse.lookup k = l.lookup k := by
  induction l with
  | nil => rfl
  | cons e rest ih =>
      obtain ⟨hfresh, hrest⟩ := List.nodup_cons.1 h
      rw [List.reverse_cons, List.lookup_append, ih hrest, lookup_cons_ite, lookup_cons_ite]
      by_cases hk : k = e.1
      · have hnone : rest.lookup k = none := by
          rw [List.lookup_eq_none_iff]
          intro p hp
          have hmem : p.1 ∈ rest.map (·.1) := List.mem_map_of_mem hp
          have hne : k ≠ p.1 := by
            intro heq
            rw [← heq, hk] at hmem
            exact hfresh hmem
          simpa using hne
        rw [hnone, if_pos hk, if_pos hk, Option.none_or]
      · simp [hk]

theorem get?_extend (m n : OrdMap K V) (k : K) :
    (m.extend n).get? k = (n.get? k).or (m.get? k) := by
  rw [extend, get?_foldl_insert, lookup_reverse n.keys_nodup]
  rfl

theorem get?_ofList {l : List (K × V)} (h : (l.map (·.1)).Nodup) (k : K) :
    (ofList l).get? k = l.lookup k := by
  rw [ofList, get?_foldl_insert, lookup_reverse h]
  simp

theorem get?_ofList_eq_some_iff {l : List (K × V)} (h : (l.map (·.1)).Nodup) {k : K} {v : V} :
    (ofList l).get? k = some v ↔ (k, v) ∈ l := by
  rw [get?_ofList h, lookup_eq_some_iff_mem h]

theorem mem_of_get?_ofList {l : List (K × V)} {k : K} {v : V} (h : (ofList l).get? k = some v) :
    (k, v) ∈ l := by
  rw [ofList, get?_foldl_insert, get?_empty, Option.or_none] at h
  obtain ⟨before, after, hl, -⟩ := List.lookup_eq_some_iff.1 h
  have hmem : (k, v) ∈ l.reverse := hl ▸ List.mem_append_right before List.mem_cons_self
  exact List.mem_reverse.1 hmem

theorem ofList_entries (m : OrdMap K V) : ofList m.entries = m :=
  ext_get? fun k => get?_ofList m.keys_nodup k

theorem entries_ofList {l : List (K × V)} (h : l.Pairwise fun a b => a.1 < b.1) :
    (ofList l).entries = l :=
  congrArg entries (ofList_entries ⟨l, h⟩)

theorem ofList_map_entries (f : V → W) (m : OrdMap K V) :
    ofList (m.entries.map fun e => (e.1, f e.2)) = m.mapEntries fun _ => f := by
  refine ext_entries (entries_ofList ?_)
  simpa [List.pairwise_map] using m.sorted

end OrdMap

/-- A list of keys, each paired with its value: the entries are the pairs of a key of the
list and its value. -/
theorem entries_of_forall₂ {α β : Type} {get : α → Option β} {ks : List α} {es : List (α × β)}
    (h : List.Forall₂ (fun k e => ∃ v, get k = some v ∧ (k, v) = e) ks es) :
    es.map (·.1) = ks ∧ ∀ k v, (k, v) ∈ es ↔ k ∈ ks ∧ get k = some v := by
  induction h with
  | nil => simp
  | cons hhead _ ih =>
      obtain ⟨w, hw, rfl⟩ := hhead
      refine ⟨by rw [List.map_cons, ih.1], fun k v => ?_⟩
      simp only [List.mem_cons, Prod.mk.injEq, ih.2]
      constructor
      · rintro (⟨rfl, rfl⟩ | ⟨hmem, hv⟩)
        · exact ⟨.inl rfl, hw⟩
        · exact ⟨.inr hmem, hv⟩
      · rintro ⟨rfl | hmem, hv⟩
        · exact .inl ⟨rfl, Option.some.inj (hv.symm.trans hw)⟩
        · exact .inr ⟨hmem, hv⟩

abbrev OrdSet (K : Type) [LinearOrder K] := OrdMap K Unit

def OrdSet.ofList (l : List K) : OrdSet K := OrdMap.ofList (l.map fun k => (k, ()))

variable {α : Type}

def sortBy (key : α → K) (l : List α) : List α :=
  l.insertionSort fun a b => key a ≤ key b

section SortBy

variable (key : α → K)

theorem sortBy_perm (l : List α) : (sortBy key l).Perm l :=
  List.perm_insertionSort _ l

@[simp] theorem mem_sortBy {l : List α} {a : α} : a ∈ sortBy key l ↔ a ∈ l :=
  (sortBy_perm key l).mem_iff

@[simp] theorem length_sortBy (l : List α) : (sortBy key l).length = l.length :=
  (sortBy_perm key l).length_eq

theorem pairwise_sortBy (l : List α) : (sortBy key l).Pairwise fun a b => key a ≤ key b := by
  have total : Std.Total fun a b : α => key a ≤ key b := ⟨fun a b => le_total _ _⟩
  have trans : IsTrans α fun a b => key a ≤ key b := ⟨fun _ _ _ => le_trans⟩
  exact List.pairwise_insertionSort _ l

theorem sortBy_of_pairwise {l : List α} (h : l.Pairwise fun a b => key a ≤ key b) :
    sortBy key l = l :=
  List.Pairwise.insertionSort_eq h

@[simp] theorem sortBy_sortBy (l : List α) : sortBy key (sortBy key l) = sortBy key l :=
  sortBy_of_pairwise key (pairwise_sortBy key l)

theorem pairwise_lt_sortBy {l : List α} (h : (l.map key).Nodup) :
    (sortBy key l).Pairwise fun a b => key a < key b := by
  have hnodup : ((sortBy key l).map key).Nodup :=
    ((sortBy_perm key l).map key).nodup_iff.2 h
  rw [List.Nodup, List.pairwise_map] at hnodup
  exact ((pairwise_sortBy key l).and hnodup).imp fun h => lt_of_le_of_ne h.1 h.2

/-- With pairwise different keys the sorted list does not depend on the order of
the list. -/
theorem sortBy_eq_of_perm {l l' : List α} (hperm : l.Perm l') (h : (l.map key).Nodup) :
    sortBy key l = sortBy key l' := by
  have irrefl : Std.Irrefl fun a b : α => key a < key b := ⟨fun a => lt_irrefl _⟩
  have antisymm : Std.Antisymm fun a b : α => key a < key b :=
    ⟨fun a b hab hba => absurd hab (not_lt.2 hba.le)⟩
  refine List.Pairwise.eq_of_mem_iff (pairwise_lt_sortBy key h)
    (pairwise_lt_sortBy key ((hperm.map key).nodup_iff.1 h)) ?_
  intro a
  rw [mem_sortBy, mem_sortBy, hperm.mem_iff]

theorem eq_of_pairwise_lt {l m : List α} (hl : l.Pairwise fun a b => key a < key b)
    (hm : m.Pairwise fun a b => key a < key b) (h : ∀ a, a ∈ l ↔ a ∈ m) : l = m := by
  have irrefl : Std.Irrefl fun a b : α => key a < key b := ⟨fun a => lt_irrefl (key a)⟩
  have antisymm : Std.Antisymm fun a b : α => key a < key b :=
    ⟨fun a b hab hba => absurd hab (not_lt.2 hba.le)⟩
  exact List.Pairwise.eq_of_mem_iff hl hm h

/-- In a list in order a search finds the least of what it looks for. -/
theorem find?_eq_some_iff_least {l : List α} (h : l.Pairwise fun a b => key a < key b)
    {p : α → Bool} {a : α} :
    l.find? p = some a ↔ a ∈ l ∧ p a = true ∧ ∀ b ∈ l, p b = true → key a ≤ key b := by
  induction l with
  | nil => simp
  | cons c rest ih =>
      obtain ⟨hhead, hrest⟩ := List.pairwise_cons.1 h
      by_cases hc : p c = true
      · rw [List.find?_cons_of_pos hc, Option.some.injEq]
        constructor
        · rintro rfl
          refine ⟨List.mem_cons_self, hc, fun b hb _ => ?_⟩
          rcases List.mem_cons.1 hb with rfl | hb
          · exact le_rfl
          · exact (hhead b hb).le
        · rintro ⟨ha, -, hleast⟩
          rcases List.mem_cons.1 ha with rfl | ha
          · rfl
          · exact absurd (hleast c List.mem_cons_self hc) (not_le.2 (hhead a ha))
      · rw [List.find?_cons_of_neg hc, ih hrest]
        constructor
        · rintro ⟨ha, hpa, hleast⟩
          refine ⟨List.mem_cons_of_mem c ha, hpa, fun b hb hpb => ?_⟩
          rcases List.mem_cons.1 hb with rfl | hb
          · exact absurd hpb hc
          · exact hleast b hb hpb
        · rintro ⟨ha, hpa, hleast⟩
          rcases List.mem_cons.1 ha with rfl | ha
          · exact absurd hpa hc
          · exact ⟨ha, hpa, fun b hb => hleast b (List.mem_cons_of_mem c hb)⟩

theorem nodup_of_sortBy {l : List α} (h : ((sortBy key l).map key).Nodup) : (l.map key).Nodup :=
  ((sortBy_perm key l).map key).nodup_iff.1 h

/-- A sorted list has no two equal keys exactly when no two neighbours have. -/
theorem forall_zip_tail_sortBy_iff (l : List α) :
    (∀ pair ∈ (sortBy key l).zip (sortBy key l).tail, key pair.1 ≠ key pair.2) ↔
      (l.map key).Nodup := by
  suffices general : ∀ s : List α, s.Pairwise (fun a b => key a ≤ key b) →
      ((∀ pair ∈ s.zip s.tail, key pair.1 ≠ key pair.2) ↔ (s.map key).Nodup) from
    (general _ (pairwise_sortBy key l)).trans ((sortBy_perm key l).map key).nodup_iff
  intro s hs
  induction s with
  | nil => simp
  | cons a rest ih =>
      cases rest with
      | nil => simp
      | cons b rest =>
          obtain ⟨hhead, htail⟩ := List.pairwise_cons.1 hs
          have hzip : (a :: b :: rest).zip (a :: b :: rest).tail =
              (a, b) :: (b :: rest).zip (b :: rest).tail := rfl
          have hmap : (a :: b :: rest).map key = key a :: (b :: rest).map key := rfl
          rw [hzip, List.forall_mem_cons, ih htail, hmap, List.nodup_cons]
          refine and_congr_left fun _ => ?_
          constructor
          · intro hne hmem
            have hlt : key a < key b := lt_of_le_of_ne (hhead b List.mem_cons_self) hne
            obtain ⟨c, hc, hkey⟩ := List.mem_map.1 hmem
            rcases List.mem_cons.1 hc with rfl | hc
            · exact hlt.ne hkey.symm
            · exact (hlt.trans_le ((List.pairwise_cons.1 htail).1 c hc)).ne hkey.symm
          · intro hfresh heq
            exact hfresh (List.mem_map.2 ⟨b, List.mem_cons_self, heq.symm⟩)

theorem map_sortBy {f : α → α} (hkey : ∀ a, key (f a) = key a) (l : List α) :
    (sortBy key l).map f = sortBy key (l.map f) :=
  List.map_insertionSort _ _ f l fun a _ b _ => by rw [hkey, hkey]

end SortBy

def Rearranged (R : α → α → Prop) : List α → List α → Prop :=
  Relation.Comp List.Perm (List.Forall₂ R)

section Rearranged

variable {R : α → α → Prop} {l l' : List α}

theorem Rearranged.symm (hsymm : ∀ {a b}, R a b → R b a) (h : Rearranged R l l') :
    Rearranged R l' l := by
  obtain ⟨m, hperm, hall⟩ := h
  have hback : List.Forall₂ R l' m := hall.flip.imp fun _ _ => hsymm
  rw [Rearranged, ← List.forall₂_comp_perm_eq_perm_comp_forall₂]
  exact ⟨m, hback, hperm.symm⟩

/-- A function that does not tell related elements apart maps a rearrangement to a
permutation. -/
theorem Rearranged.map_perm {β : Type} {f : α → β} (h : Rearranged R l l')
    (hf : ∀ a ∈ l, ∀ b, R a b → f a = f b) : (l.map f).Perm (l'.map f) := by
  obtain ⟨m, hperm, hall⟩ := h
  have hmem : ∀ a ∈ m, a ∈ l := fun a ha => hperm.mem_iff.2 ha
  have hmap : m.map f = l'.map f := by
    clear hperm
    induction hall with
    | nil => rfl
    | @cons a b m l' hab _ ih =>
        rw [List.map_cons, List.map_cons, hf a (hmem a List.mem_cons_self) b hab,
          ih fun c hc => hmem c (List.mem_cons_of_mem a hc)]
  exact hmap ▸ hperm.map f

/-- Sorting and mapping two rearranged lists gives one list, when the function maps related
elements to one element and keeps the keys. -/
theorem Rearranged.map_sortBy_eq {k : α → K} {f : α → α} (h : Rearranged R l l')
    (hkey : ∀ a, k (f a) = k a) (hf : ∀ a ∈ l, ∀ b, R a b → f a = f b)
    (hnodup : (l.map k).Nodup) : (sortBy k l).map f = (sortBy k l').map f := by
  rw [map_sortBy k hkey, map_sortBy k hkey]
  refine sortBy_eq_of_perm k (h.map_perm hf) ?_
  rwa [List.map_map, show k ∘ f = k from funext hkey]

end Rearranged

/-- What a predicate holds of occurs at no place of the list, at one, or at several. -/
theorem filter_places (p : α → Bool) (l : List α) :
    (l.filter p = [] ∧ ∀ i : Fin l.length, p l[i] = false) ∨
      (∃ i : Fin l.length, l.filter p = [l[i]] ∧ ∀ j : Fin l.length, p l[j] = true ↔ j = i) ∨
        (∃ a b rest, l.filter p = a :: b :: rest) ∧
          ∃ i j : Fin l.length, i ≠ j ∧ p l[i] = true ∧ p l[j] = true := by
  induction l with
  | nil => exact .inl ⟨rfl, fun i => i.elim0⟩
  | cons c rest ih =>
      by_cases hc : p c = true
      · rw [List.filter_cons_of_pos hc]
        rcases ih with ⟨hnil, hnone⟩ | ⟨i, hone, honly⟩ | ⟨⟨a, b, more, hmany⟩, i, j, hne, hi, hj⟩
        · refine .inr (.inl ⟨⟨0, Nat.succ_pos _⟩, by simp [hnil], fun j => ?_⟩)
          refine Fin.cases ?_ (fun j => ?_) j
          · simpa using hc
          · simpa [Fin.ext_iff] using hnone j
        · refine .inr (.inr ⟨⟨c, rest[i], [], by rw [hone]⟩, ⟨0, Nat.succ_pos _⟩, i.succ, ?_, ?_, ?_⟩)
          · simp [Fin.ext_iff]
          · simpa using hc
          · simpa using (honly i).2 rfl
        · refine .inr (.inr ⟨⟨c, a, b :: more, by rw [hmany]⟩, i.succ, j.succ, ?_, ?_, ?_⟩)
          · simpa using hne
          · simpa using hi
          · simpa using hj
      · rw [List.filter_cons_of_neg hc]
        rcases ih with ⟨hnil, hnone⟩ | ⟨i, hone, honly⟩ | ⟨hmany, i, j, hne, hi, hj⟩
        · refine .inl ⟨hnil, fun j => ?_⟩
          refine Fin.cases ?_ (fun j => ?_) j
          · simpa using hc
          · simpa using hnone j
        · refine .inr (.inl ⟨i.succ, by simpa using hone, fun j => ?_⟩)
          refine Fin.cases ?_ (fun j => ?_) j
          · simpa [Fin.ext_iff] using hc
          · simpa using honly j
        · refine .inr (.inr ⟨hmany, i.succ, j.succ, ?_, ?_, ?_⟩)
          · simpa using hne
          · simpa using hi
          · simpa using hj

end Foundation
