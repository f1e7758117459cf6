import Evobase.Foundation.Json

/-!
# Typed values as JSON

How a record of declared fields, a list, an ordered set or an ordered map is written
and read. `ofFields` writes an object with the fields that have a value. `fields?`
reads an object whose members are declared and pairwise different, or an array that
lists the fields in the order of their declaration; it gives back one optional value
for each declared field. A typed reader is then a match on this list, and its round
trip is `fields?_ofFields` followed by the round trips of the fields.
-/

namespace Foundation

namespace Json

variable {α β K V : Type}

def ofI64 (n : I64) : Json := .int (n.widen (by decide) (by decide))

def ofU64 (n : U64) : Json := .int (n.widen I64.min_le_zero U64.max_le_max)

def ofU32 (n : U32) : Json := .int (n.widen I64.min_le_zero (by decide))

def int? {lo hi : Int} : Json → Option (Bounded lo hi)
  | .int n => Bounded.ofInt? n.val
  | _ => none

def str? : Json → Option String
  | .str s => some s
  | _ => none

/-- The name of a variant without content: a string, or an object whose one member has the name
and is null. -/
def variantName? : Json → Option String
  | .str name => some name
  | .obj [(name, .null)] => some name
  | _ => none

def bool? : Json → Option Bool
  | .bool b => some b
  | _ => none

def arr? : Json → Option (List Json)
  | .arr elements => some elements
  | _ => none

def obj? : Json → Option (List (String × Json))
  | .obj members => some members
  | _ => none

@[simp] theorem int?_ofI64 (n : I64) : int? (ofI64 n) = some n := Bounded.ofInt?_val n

@[simp] theorem int?_ofU64 (n : U64) : int? (ofU64 n) = some n := Bounded.ofInt?_val n

@[simp] theorem int?_ofU32 (n : U32) : int? (ofU32 n) = some n := Bounded.ofInt?_val n

@[simp] theorem str?_str (s : String) : str? (.str s) = some s := rfl

@[simp] theorem bool?_bool (b : Bool) : bool? (.bool b) = some b := rfl

@[simp] theorem exact_ofI64 (n : I64) : Exact (ofI64 n) := trivial

@[simp] theorem exact_ofU64 (n : U64) : Exact (ofU64 n) := trivial

@[simp] theorem exact_ofU32 (n : U32) : Exact (ofU32 n) := trivial

@[simp] theorem exact_str (s : String) : Exact (.str s) := trivial

@[simp] theorem exact_bool (b : Bool) : Exact (.bool b) := trivial

def ofList (write : α → Json) (l : List α) : Json := .arr (l.map write)

def list? (read : Json → Option α) (j : Json) : Option (List α) :=
  j.arr?.bind fun elements => elements.mapM read

theorem mapM_map {write : α → β} {read : β → Option α} {l : List α}
    (h : ∀ a ∈ l, read (write a) = some a) : (l.map write).mapM read = some l := by
  induction l with
  | nil => rfl
  | cons a rest ih =>
      rw [List.map_cons, List.mapM_cons, h a (by simp), ih fun b hb => h b (by simp [hb])]
      rfl

theorem list?_ofList {write : α → Json} {read : Json → Option α} {l : List α}
    (h : ∀ a ∈ l, read (write a) = some a) : list? read (ofList write l) = some l :=
  mapM_map h

theorem exact_ofList {write : α → Json} {l : List α} (h : ∀ a ∈ l, Exact (write a)) :
    Exact (ofList write l) := by
  simpa [ofList, Exact, exactElements_iff] using h

def unlessEmpty (write : α → Json) (l : List α) : Option Json :=
  if l = [] then none else some (ofList write l)

def listOrEmpty (read : Json → Option α) : Option Json → Option (List α)
  | none => some []
  | some j => list? read j

theorem listOrEmpty_unlessEmpty {write : α → Json} {read : Json → Option α} {l : List α}
    (h : ∀ a ∈ l, read (write a) = some a) :
    listOrEmpty read (unlessEmpty write l) = some l := by
  by_cases hl : l = []
  · simp [unlessEmpty, listOrEmpty, hl]
  · simpa [unlessEmpty, listOrEmpty, hl] using list?_ofList h

theorem exact_unlessEmpty {write : α → Json} {l : List α} (h : ∀ a ∈ l, Exact (write a)) :
    ∀ j ∈ unlessEmpty write l, Exact j := by
  intro j hj
  by_cases hl : l = []
  · simp [unlessEmpty, hl] at hj
  · obtain rfl : ofList write l = j := by simpa [unlessEmpty, hl] using hj
    exact exact_ofList h

def boolOrFalse : Option Json → Option Bool
  | none => some false
  | some j => bool? j

@[simp] theorem boolOrFalse_some (b : Bool) : boolOrFalse (some (.bool b)) = some b := rfl

def orNull (write : α → Json) : Option α → Json
  | none => .null
  | some a => write a

/-- An optional field has no value when it is left out or null. -/
def optional? (read : Json → Option α) : Option Json → Option (Option α)
  | none | some .null => some none
  | some j => (read j).map some

@[simp] theorem optional?_orNull_str (o : Option String) :
    optional? str? (some (orNull .str o)) = some o := by
  cases o <;> rfl

@[simp] theorem exact_orNull_str (o : Option String) : Exact (orNull .str o) := by
  cases o <;> trivial

section Ordered

variable [LinearOrder K]

def ofSet (write : K → Json) (s : OrdSet K) : Json := ofList write s.keys

def set? (read : Json → Option K) (j : Json) : Option (OrdSet K) :=
  (list? read j).map OrdSet.ofList

theorem set?_ofSet {write : K → Json} {read : Json → Option K} {s : OrdSet K}
    (h : ∀ k ∈ s.keys, read (write k) = some k) : set? read (ofSet write s) = some s := by
  have hkeys : s.keys.map (fun k => (k, ())) = s.entries := by
    rw [OrdMap.keys, List.map_map]
    exact List.map_id _
  rw [set?, ofSet, list?_ofList h, Option.map_some, OrdSet.ofList, hkeys, OrdMap.ofList_entries]

def setUnlessEmpty (write : K → Json) (s : OrdSet K) : Option Json := unlessEmpty write s.keys

def setOrEmpty (read : Json → Option K) : Option Json → Option (OrdSet K)
  | none => some OrdMap.empty
  | some j => set? read j

theorem setOrEmpty_setUnlessEmpty {write : K → Json} {read : Json → Option K} {s : OrdSet K}
    (h : ∀ k ∈ s.keys, read (write k) = some k) :
    setOrEmpty read (setUnlessEmpty write s) = some s := by
  by_cases hs : s.keys = []
  · have hempty : s = OrdMap.empty :=
      OrdMap.ext_entries (List.map_eq_nil_iff.1 hs)
    simp [setUnlessEmpty, unlessEmpty, setOrEmpty, hempty, OrdMap.keys, OrdMap.empty]
  · rw [setUnlessEmpty, unlessEmpty, if_neg hs]
    exact set?_ofSet h

def ofMap (name : K → String) (write : V → Json) (m : OrdMap K V) : Json :=
  .obj (m.entries.map fun e => (name e.1, write e.2))

/-- A map, read from an object whose keys are pairwise different and at most `limit`. -/
def map? (limit : Nat) (key : String → Option K) (read : Json → Option V) (j : Json) :
    Option (OrdMap K V) :=
  j.obj?.bind fun members =>
    (members.mapM fun m => (key m.1).bind fun k => (read m.2).map fun v => (k, v)).bind
      fun entries =>
        if (entries.map (·.1)).Nodup ∧ entries.length ≤ limit then some (OrdMap.ofList entries)
        else none

theorem map?_ofMap {limit : Nat} {name : K → String} {key : String → Option K}
    {write : V → Json} {read : Json → Option V} {m : OrdMap K V}
    (hkey : ∀ k, key (name k) = some k) (hread : ∀ v, read (write v) = some v)
    (hlimit : m.entries.length ≤ limit) :
    map? limit key read (ofMap name write m) = some m := by
  have hentries : (m.entries.map fun e => (name e.1, write e.2)).mapM
      (fun p => (key p.1).bind fun k => (read p.2).map fun v => (k, v)) = some m.entries :=
    mapM_map fun e _ => by simp [hkey, hread]
  simp only [map?, ofMap, obj?, Option.bind_some, hentries]
  rw [if_pos ⟨m.keys_nodup, hlimit⟩, OrdMap.ofList_entries]

theorem exact_ofSet {write : K → Json} {s : OrdSet K} (h : ∀ k, Exact (write k)) :
    Exact (ofSet write s) :=
  exact_ofList fun k _ => h k

theorem exact_ofMap {name : K → String} {write : V → Json} {m : OrdMap K V}
    (h : ∀ v, Exact (write v)) : Exact (ofMap name write m) := by
  simp only [ofMap, Exact, exactMembers_iff, List.mem_map]
  rintro _ ⟨e, -, rfl⟩
  exact h e.2

end Ordered

/-- The fields that have a value, as members. -/
def present : List (String × Option Json) → List (String × Json)
  | [] => []
  | (_, none) :: rest => present rest
  | (name, some j) :: rest => (name, j) :: present rest

/-- An object with the fields that have a value, in the order of their declaration. -/
def ofFields (fields : List (String × Option Json)) : Json := .obj (present fields)

/-- The values of the declared fields: of an object whose members are declared and
pairwise different, or of an array of at most as many elements as declared fields. -/
def fields? (names : List String) : Json → Option (List (Option Json))
  | .obj members =>
      if (members.map (·.1)).Nodup ∧ ∀ m ∈ members, m.1 ∈ names then
        some (names.map fun name => members.lookup name)
      else none
  | .arr elements =>
      if elements.length ≤ names.length then
        some (elements.map some ++ List.replicate (names.length - elements.length) none)
      else none
  | _ => none

/-- `fields?` for a record none of whose fields may be missing from an array. -/
def allFields? (names : List String) : Json → Option (List (Option Json))
  | .arr elements => if elements.length = names.length then some (elements.map some) else none
  | j => fields? names j

/-- The tag and the content of a value whose tag stands beside its content. -/
def adjacent? (tag content : String) : Json → Option (String × Option Json)
  | .arr [name, value] => name.variantName?.map fun name => (name, some value)
  | .obj members =>
      match (Json.obj members).fields? [tag, content] with
      | some [name, value] => (name.bind variantName?).map fun name => (name, value)
      | _ => none
  | _ => none

theorem mem_present {fields : List (String × Option Json)} {m : String × Json}
    (h : m ∈ present fields) : (m.1, some m.2) ∈ fields := by
  induction fields with
  | nil => simp [present] at h
  | cons head rest ih =>
      obtain ⟨name, _ | j⟩ := head
      · exact List.mem_cons_of_mem _ (ih h)
      · rcases List.mem_cons.1 h with rfl | h
        · exact List.mem_cons_self
        · exact List.mem_cons_of_mem _ (ih h)

theorem name_mem_of_mem_present {fields : List (String × Option Json)} {m : String × Json}
    (h : m ∈ present fields) : m.1 ∈ fields.map (·.1) :=
  List.mem_map_of_mem (f := fun f : String × Option Json => f.1) (mem_present h)

theorem lookup_present {fields : List (String × Option Json)}
    (h : (fields.map (·.1)).Nodup) {name : String} {value : Option Json}
    (hf : (name, value) ∈ fields) : (present fields).lookup name = value := by
  induction fields with
  | nil => simp at hf
  | cons head rest ih =>
      obtain ⟨hfresh, hrest⟩ := List.nodup_cons.1 h
      obtain ⟨other, o⟩ := head
      by_cases hname : name = other
      · have hvalue : value = o := by
          rcases List.mem_cons.1 hf with heq | hf
          · exact congrArg Prod.snd heq
          · exact absurd (hname ▸ List.mem_map_of_mem (f := fun f => f.1) hf) hfresh
        subst hname hvalue
        cases value with
        | none =>
            rw [present, List.lookup_eq_none_iff]
            intro m hm
            have hne : name ≠ m.1 := fun heq => hfresh (heq ▸ name_mem_of_mem_present hm)
            simpa using hne
        | some j => rw [present, lookup_cons_ite, if_pos rfl]
      · have htail : (name, value) ∈ rest := by
          rcases List.mem_cons.1 hf with heq | hf
          · exact absurd (congrArg Prod.fst heq) hname
          · exact hf
        cases o with
        | none => rw [present, ih hrest htail]
        | some j => rw [present, lookup_cons_ite, if_neg hname, ih hrest htail]

theorem nodup_present {fields : List (String × Option Json)}
    (h : (fields.map (·.1)).Nodup) : ((present fields).map (·.1)).Nodup := by
  induction fields with
  | nil => simp [present]
  | cons head rest ih =>
      obtain ⟨hfresh, hrest⟩ := List.nodup_cons.1 h
      obtain ⟨name, _ | j⟩ := head
      · exact ih hrest
      · refine List.nodup_cons.2 ⟨?_, ih hrest⟩
        intro hmem
        obtain ⟨m, hm, heq⟩ := List.mem_map.1 hmem
        exact hfresh (heq ▸ name_mem_of_mem_present hm)

/-- Written fields are read back. -/
theorem fields?_ofFields {fields : List (String × Option Json)} {names : List String}
    (hnames : fields.map (·.1) = names) (h : names.Nodup) :
    fields? names (ofFields fields) = some (fields.map (·.2)) := by
  subst hnames
  rw [ofFields, fields?, if_pos ⟨nodup_present h, fun m hm => name_mem_of_mem_present hm⟩,
    List.map_map]
  congr 1
  exact List.map_congr_left fun f hf => lookup_present h hf

theorem adjacent?_ofFields {tag content : String} (h : tag ≠ content) (name : String)
    (value : Option Json) :
    (ofFields [(tag, some (.str name)), (content, value)]).adjacent? tag content =
      some (name, value) := by
  have hfields : (ofFields [(tag, some (.str name)), (content, value)]).fields? [tag, content] =
      some [some (.str name), value] := fields?_ofFields rfl (by simp [h])
  simp only [ofFields] at hfields ⊢
  simp [adjacent?, hfields, variantName?]

theorem allFields?_ofFields {fields : List (String × Option Json)} {names : List String}
    (hnames : fields.map (·.1) = names) (h : names.Nodup) :
    allFields? names (ofFields fields) = some (fields.map (·.2)) :=
  fields?_ofFields hnames h

theorem exact_ofFields {fields : List (String × Option Json)}
    (h : ∀ f ∈ fields, ∀ j ∈ f.2, Exact j) : Exact (ofFields fields) := by
  simp only [ofFields, Exact, exactMembers_iff]
  intro m hm
  exact h _ (mem_present hm) m.2 rfl

end Json

end Foundation
