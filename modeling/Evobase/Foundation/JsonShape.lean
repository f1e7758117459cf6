import Evobase.Foundation.JsonFields

/-!
# Declared members

A format declares which members an object may have at each position of a document (`Shape`). A
document is strict when all its objects, at any depth, have declared and pairwise different
members. There are two places where a reader tolerates members that are not declared. A value
that is tagged from inside may have a variant without fields, whose reader skips the members
beside the tag. A value that is tagged from beside may have an object for its tag, whose one
member has the name of the variant and is null. `Bare` says that a document has neither, and
`Shape.trim` leaves the skipped members out and writes such an object as the name. A reader
follows a shape when `trim` changes nothing for it and it accepts, of the bare documents, strict
ones only (`Follows`). The rules for scalars, names of variants, lists, records of fields and
values tagged from beside build such readers up.
-/

namespace Foundation

open Json

/-- What a format declares for a position of a document. -/
inductive Shape where
  | scalar
  /-- The name of a variant. -/
  | variantName
  | list (element : Shape)
  | record (fields : List (String × Shape))
  /-- Tagged from inside: each variant has fields beside the tag. -/
  | tagged (tag : String) (variants : List (String × List (String × Shape)))
  /-- Tagged from beside: each variant has a content. -/
  | adjacent (tag content : String) (variants : List (String × Shape))

namespace Shape

/-- The variant that a value tagged from inside names. -/
def variant? (tag : String) : Json → Option String
  | .obj members => (members.lookup tag).bind str?
  | .arr (.str variant :: _) => some variant
  | _ => none

/-- The fields of the variant that a tagged value names, when there is such a variant. -/
def variantFields? (tag : String) (variants : List (String × List (String × Shape))) (j : Json) :
    Option (List (String × Shape)) :=
  (variant? tag j).bind fun variant => variants.lookup variant

/-- The variant that a value tagged from beside names. -/
def adjacentVariant? (tag : String) : Json → Option String
  | .obj members => (members.lookup tag).bind variantName?
  | .arr (name :: _) => name.variantName?
  | _ => none

def contentOf (variants : List (String × Shape)) (variant : Option String) : Shape :=
  (variant.bind fun variant => variants.lookup variant).getD .scalar

/-- The fields that are declared for a value, in order. -/
def fields (j : Json) : Shape → List (String × Shape)
  | .scalar | .variantName | .list _ => []
  | .record fields => fields
  | .tagged tag variants => (tag, .scalar) :: (variantFields? tag variants j).getD []
  | .adjacent tag content variants =>
      [(tag, .variantName), (content, contentOf variants (adjacentVariant? tag j))]

def member (members : List (String × Json)) (s : Shape) (name : String) : Shape :=
  ((s.fields (.obj members)).lookup name).getD .scalar

def slot (fields : List (String × Shape)) (i : Nat) : Shape := (fields[i]?.map (·.2)).getD .scalar

/-- What is declared for an element of an array. -/
def element (elements : List Json) (s : Shape) (i : Nat) : Shape :=
  match s with
  | .list element => element
  | s => slot (s.fields (.arr elements)) i

/-- The member is beside the tag of a variant without fields, or in an object for the name of a
variant. -/
def tolerates (members : List (String × Json)) (name : String) : Shape → Bool
  | .tagged tag variants =>
      (variantFields? tag variants (.obj members)).any (·.isEmpty) && name ≠ tag
  | .variantName => true
  | _ => false

def Declares (s : Shape) (members : List (String × Json)) : Prop :=
  (members.map (·.1)).Nodup ∧ ∀ m ∈ members, m.1 ∈ (s.fields (.obj members)).map (·.1)

def kept (members : List (String × Json)) (s : Shape) (name : String) : Option Shape :=
  if s.tolerates members name then none else some (s.member members name)

/-- The name that an object stands for. -/
def named? (members : List (String × Json)) : Shape → Option String
  | .variantName => (Json.obj members).variantName?
  | _ => none

mutual
/-- The value without the members that its reader tolerates, and with names for the objects that
stand for names. -/
def trim : Shape → Json → Json
  | s, .obj members =>
      match s.named? members with
      | some name => .str name
      | none => .obj (trimMembers (s.kept members) members)
  | s, .arr elements => .arr (trimElements (s.element elements) elements)
  | _, .null => .null
  | _, .bool b => .bool b
  | _, .int n => .int n
  | _, .real text => .real text
  | _, .str text => .str text

def trimMembers (kept : String → Option Shape) : List (String × Json) → List (String × Json)
  | [] => []
  | (name, j) :: rest =>
      match kept name with
      | none => trimMembers kept rest
      | some s => (name, s.trim j) :: trimMembers kept rest

def trimElements (element : Nat → Shape) : List Json → List Json
  | [] => []
  | j :: rest => (element 0).trim j :: trimElements (fun i => element (i + 1)) rest
end

end Shape

/-- The object with the members occurs in the value, at a position for which the shape is
declared. -/
inductive HasObject : Shape → Json → Shape → List (String × Json) → Prop
  | here {s members} : HasObject s (.obj members) s members
  | member {s members m t inner} (hm : m ∈ members)
      (h : HasObject (s.member members m.1) m.2 t inner) : HasObject s (.obj members) t inner
  | element {s elements i j t inner} (hj : elements[i]? = some j)
      (h : HasObject (s.element elements i) j t inner) : HasObject s (.arr elements) t inner

def EveryObject (P : Shape → List (String × Json) → Prop) (s : Shape) (j : Json) : Prop :=
  ∀ t members, HasObject s j t members → P t members

def Strict : Shape → Json → Prop := EveryObject Shape.Declares

/-- No object of the value has members that its reader merely tolerates. -/
def Bare : Shape → Json → Prop :=
  EveryObject fun t members => ∀ m ∈ members, t.tolerates members m.1 = false

section EveryObject

variable {P : Shape → List (String × Json) → Prop} {s : Shape}

theorem everyObject_obj_iff {members : List (String × Json)} :
    EveryObject P s (.obj members) ↔
      P s members ∧ ∀ m ∈ members, EveryObject P (s.member members m.1) m.2 := by
  constructor
  · intro h
    exact ⟨h s members .here, fun m hm t inner hinner => h t inner (.member hm hinner)⟩
  · rintro ⟨hhere, hmembers⟩ t inner hinner
    cases hinner with
    | here => exact hhere
    | member hm hinner => exact hmembers _ hm t inner hinner

theorem everyObject_arr_iff {elements : List Json} :
    EveryObject P s (.arr elements) ↔
      ∀ i j, elements[i]? = some j → EveryObject P (s.element elements i) j := by
  constructor
  · intro h i j hj t inner hinner
    exact h t inner (.element hj hinner)
  · intro h t inner hinner
    cases hinner with
    | element hj hinner => exact h _ _ hj t inner hinner

theorem everyObject_leaf {j : Json} (harr : j.arr? = none) (hobj : j.obj? = none) :
    EveryObject P s j := by
  intro t members h
  cases h with
  | here => cases hobj
  | member => cases hobj
  | element => cases harr

end EveryObject

/-- A reader reads a trimmed value as the value, and accepts of the bare values strict ones only. -/
structure Follows {α : Type} (s : Shape) (read : Json → Option α) : Prop where
  trim : ∀ j, read (s.trim j) = read j
  strict : ∀ {j a}, read j = some a → Bare s j → Strict s j

namespace Shape

theorem trimMembers_eq (kept : String → Option Shape) (members : List (String × Json)) :
    trimMembers kept members =
      members.filterMap fun m => (kept m.1).map fun s => (m.1, s.trim m.2) := by
  induction members with
  | nil => rfl
  | cons m rest ih =>
      obtain ⟨name, j⟩ := m
      rw [trimMembers, List.filterMap_cons, ih]
      cases kept name <;> rfl

theorem trimElements_eq (element : Nat → Shape) (elements : List Json) :
    trimElements element elements = elements.mapIdx fun i j => (element i).trim j := by
  induction elements generalizing element with
  | nil => rfl
  | cons j rest ih => rw [trimElements, List.mapIdx_cons, ih]

theorem trim_obj {s : Shape} {members : List (String × Json)} (h : s.named? members = none) :
    s.trim (.obj members) = .obj (trimMembers (s.kept members) members) := by
  rw [trim, h]

@[simp] theorem kept_scalar (members : List (String × Json)) (name : String) :
    kept members .scalar name = some .scalar := rfl

@[simp] theorem element_scalar (elements : List Json) (i : Nat) :
    element elements .scalar i = .scalar := rfl

theorem trim_obj_eq_self {s : Shape} {members : List (String × Json)}
    (hname : s.named? members = none)
    (h : ∀ m ∈ members, ∃ t, s.kept members m.1 = some t ∧ t.trim m.2 = m.2) :
    s.trim (.obj members) = .obj members := by
  rw [trim_obj hname, trimMembers_eq]
  congr 1
  have hmembers : members.filterMap (fun m => (s.kept members m.1).map fun t =>
      (m.1, t.trim m.2)) = members.filterMap some := by
    refine List.filterMap_congr fun m hm => ?_
    obtain ⟨t, hkept, htrim⟩ := h m hm
    rw [hkept, Option.map_some, htrim]
  rw [hmembers, List.filterMap_some]

theorem trim_arr_eq_self {s : Shape} {elements : List Json}
    (h : ∀ i j, elements[i]? = some j → (s.element elements i).trim j = j) :
    s.trim (.arr elements) = .arr elements := by
  rw [trim, trimElements_eq]
  congr 1
  refine List.ext_getElem (by simp) fun i hi hi' => ?_
  rw [List.getElem_mapIdx]
  exact h i _ (List.getElem?_eq_getElem hi')

theorem trim_scalar (j : Json) : trim .scalar j = j := by
  induction j using Json.induct with
  | null => rfl
  | bool b => rfl
  | int n => rfl
  | real text => rfl
  | str text => rfl
  | arr elements ih => exact trim_arr_eq_self fun i j hj => ih j (List.mem_of_getElem? hj)
  | obj members ih => exact trim_obj_eq_self rfl fun m hm => ⟨.scalar, rfl, ih m hm⟩

end Shape

section Follows

variable {α β : Type} {s : Shape} {read : Json → Option α}

theorem Follows.scalar (h : ∀ j a, read j = some a → j.arr? = none ∧ j.obj? = none) :
    Follows .scalar read where
  trim j := by rw [Shape.trim_scalar]
  strict := by
    intro j a hread _
    obtain ⟨harr, hobj⟩ := h j a hread
    exact everyObject_leaf harr hobj

theorem Follows.map (h : Follows s read) (f : α → β) : Follows s fun j => (read j).map f where
  trim j := by rw [h.trim]
  strict := by
    intro j b hread hbare
    obtain ⟨a, ha, -⟩ := Option.map_eq_some_iff.1 hread
    exact h.strict ha hbare

theorem exists_of_mapM_eq_some {f : α → Option β} {l : List α} {bs : List β}
    (h : l.mapM f = some bs) {a : α} (ha : a ∈ l) : ∃ b, f a = some b := by
  induction l generalizing bs with
  | nil => cases ha
  | cons head rest ih =>
      rw [List.mapM_cons, Option.bind_eq_bind, Option.bind_eq_some_iff] at h
      obtain ⟨b, hb, h⟩ := h
      rw [Option.bind_eq_bind, Option.bind_eq_some_iff] at h
      obtain ⟨cs, hcs, -⟩ := h
      rcases List.mem_cons.1 ha with rfl | ha
      · exact ⟨b, hb⟩
      · exact ih hcs ha

theorem Follows.list (h : Follows s read) : Follows (.list s) (list? read) where
  trim j := by
    cases j with
    | arr elements =>
        rw [Shape.trim, Shape.trimElements_eq]
        have helements : elements.mapIdx (fun i j => (Shape.element elements (.list s) i).trim j) =
            elements.map s.trim :=
          List.ext_getElem (by simp) fun i hi hi' => by simp [Shape.element]
        rw [helements]
        simp only [list?, arr?, Option.bind_some, List.mapM_map]
        exact congrArg (elements.mapM ·) (funext fun j => h.trim j)
    | obj members => rfl
    | _ => rfl
  strict := by
    intro j l hread hbare
    cases j with
    | arr elements =>
        simp only [list?, arr?, Option.bind_some] at hread
        refine everyObject_arr_iff.2 fun i j hj => ?_
        obtain ⟨a, ha⟩ := exists_of_mapM_eq_some hread (List.mem_of_getElem? hj)
        exact h.strict ha (everyObject_arr_iff.1 hbare i j hj)
    | _ => simp [list?, arr?] at hread

end Follows

namespace Shape

variable {fields : List (String × Shape)}

def trimFields (fields : List (String × Shape)) (values : List (Option Json)) :
    List (Option Json) :=
  List.zipWith (fun f value => value.map f.2.trim) fields values

@[simp] theorem trimFields_nil (values : List (Option Json)) : trimFields [] values = [] := rfl

@[simp] theorem trimFields_cons (f : String × Shape) (value : Option Json)
    (values : List (Option Json)) :
    trimFields (f :: fields) (value :: values) = value.map f.2.trim :: trimFields fields values :=
  rfl

theorem kept_record (members : List (String × Json)) (name : String) :
    kept members (.record fields) name = some (member members (.record fields) name) := rfl

theorem member_record (hnames : (fields.map (·.1)).Nodup) {f : String × Shape} (hf : f ∈ fields)
    (members : List (String × Json)) : member members (.record fields) f.1 = f.2 := by
  rw [member, Shape.fields, (lookup_eq_some_iff_mem hnames).2 hf, Option.getD_some]

theorem lookup_map_value (members : List (String × Json)) (f : String → Json → Json)
    (name : String) : (members.map fun m => (m.1, f m.1 m.2)).lookup name =
      (members.lookup name).map (f name) := by
  induction members with
  | nil => rfl
  | cons m rest ih =>
      rw [List.map_cons, lookup_cons_ite, lookup_cons_ite, ih]
      by_cases hname : name = m.1
      · rw [if_pos hname, if_pos hname, Option.map_some, hname]
      · rw [if_neg hname, if_neg hname]

theorem trim_record_obj (members : List (String × Json)) :
    trim (.record fields) (.obj members) =
      .obj (members.map fun m => (m.1, (member members (.record fields) m.1).trim m.2)) := by
  rw [trim_obj rfl, trimMembers_eq]
  congr 1
  exact List.filterMap_eq_map ▸ rfl

theorem trim_scalars (h : ∀ f ∈ fields, f.2 = .scalar) (j : Json) :
    trim (.record fields) j = j := by
  cases j with
  | obj members =>
      refine trim_obj_eq_self rfl fun m _ => ⟨_, kept_record members m.1, ?_⟩
      have hmember : member members (.record fields) m.1 = .scalar := by
        rw [member, Shape.fields]
        cases hlookup : fields.lookup m.1 with
        | none => rfl
        | some t =>
            obtain ⟨pre, post, heq, -⟩ := List.lookup_eq_some_iff.1 hlookup
            exact h (m.1, t) (by simp [heq])
      rw [hmember, trim_scalar]
  | arr elements =>
      refine trim_arr_eq_self fun i j _ => ?_
      have hslot : slot fields i = .scalar := by
        rw [slot]
        cases hi : fields[i]? with
        | none => rfl
        | some f => exact h f (List.mem_of_getElem? hi)
      change (slot fields i).trim j = j
      rw [hslot, trim_scalar]
  | _ => rfl

theorem trimFields_elements (elements : List Json) (h : elements.length ≤ fields.length) :
    trimFields fields
        (elements.map some ++ List.replicate (fields.length - elements.length) none) =
      (elements.mapIdx fun i j => (slot fields i).trim j).map some ++
        List.replicate (fields.length - elements.length) none := by
  induction fields generalizing elements with
  | nil =>
      obtain rfl : elements = [] := List.eq_nil_of_length_eq_zero (Nat.le_zero.1 h)
      rfl
  | cons f rest ih =>
      cases elements with
      | nil =>
          have hrest := ih [] (Nat.zero_le _)
          simp only [List.map_nil, List.nil_append, List.mapIdx_nil, List.length_nil, Nat.sub_zero]
            at hrest ⊢
          rw [List.length_cons, List.replicate_succ, trimFields, List.zipWith_cons_cons]
          exact congrArg (none :: ·) hrest
      | cons j more =>
          have hrest := ih more (Nat.le_of_succ_le_succ h)
          rw [List.length_cons, List.length_cons, Nat.add_sub_add_right, List.map_cons,
            List.cons_append, trimFields, List.zipWith_cons_cons, List.mapIdx_cons, List.map_cons,
            List.cons_append]
          exact congrArg (some (f.2.trim j) :: ·) hrest

/-- The fields of a trimmed record are the trimmed fields. -/
theorem fields?_trim (hnames : (fields.map (·.1)).Nodup) (j : Json) :
    (trim (.record fields) j).fields? (fields.map (·.1)) =
      (j.fields? (fields.map (·.1))).map (trimFields fields) := by
  cases j with
  | obj members =>
      rw [trim_record_obj, Json.fields?, Json.fields?, List.map_map]
      have hkeys : (members.map ((fun m : String × Json => m.1) ∘ fun m =>
          (m.1, (member members (.record fields) m.1).trim m.2))) = members.map (·.1) := rfl
      have hdeclared : (∀ m ∈ members.map (fun m =>
            (m.1, (member members (.record fields) m.1).trim m.2)), m.1 ∈ fields.map (·.1)) ↔
          ∀ m ∈ members, m.1 ∈ fields.map (·.1) := by
        rw [List.forall_mem_map]
      simp only [hkeys, hdeclared]
      split
      · rw [Option.map_some, trimFields, List.map_map, List.map_map, List.zipWith_map_right,
          List.zipWith_self]
        refine congrArg some (List.map_congr_left fun f hf => ?_)
        rw [Function.comp_apply, lookup_map_value members fun name =>
          (member members (.record fields) name).trim, member_record hnames hf]
        rfl
      · rfl
  | arr elements =>
      have helement : element elements (.record fields) = slot fields := rfl
      rw [trim, trimElements_eq, helement, Json.fields?, Json.fields?, List.length_mapIdx,
        List.length_map]
      split
      · rename_i hle
        rw [Option.map_some, trimFields_elements elements hle]
      · rfl
  | _ => rfl

end Shape

theorem length_fields? {names : List String} {j : Json} {values : List (Option Json)}
    (h : j.fields? names = some values) : values.length = names.length := by
  cases j with
  | obj members =>
      simp only [Json.fields?, Option.ite_none_right_eq_some, Option.some.injEq] at h
      rw [← h.2, List.length_map]
  | arr elements =>
      simp only [Json.fields?, Option.ite_none_right_eq_some, Option.some.injEq] at h
      rw [← h.2, List.length_append, List.length_map, List.length_replicate]
      omega
  | _ => cases h

def StrictField (s : Shape) (value : Option Json) : Prop :=
  ∀ j, value = some j → Bare s j → Strict s j

def StrictFields (fields : List (String × Shape)) (values : List (Option Json)) : Prop :=
  ∀ e ∈ fields.zip values, StrictField e.1.2 e.2

@[simp] theorem strictFields_nil (values : List (Option Json)) : StrictFields [] values := by
  simp [StrictFields]

@[simp] theorem strictFields_cons {f : String × Shape} {fields : List (String × Shape)}
    {value : Option Json} {values : List (Option Json)} :
    StrictFields (f :: fields) (value :: values) ↔
      StrictField f.2 value ∧ StrictFields fields values := by
  rw [StrictFields, List.zip_cons_cons, List.forall_mem_cons]
  rfl

/-- A record is strict when its fields are. -/
theorem strict_record {fields : List (String × Shape)} (hnames : (fields.map (·.1)).Nodup)
    {j : Json} {values : List (Option Json)} (hvalues : j.fields? (fields.map (·.1)) = some values)
    (hfields : StrictFields fields values) (hbare : Bare (.record fields) j) :
    Strict (.record fields) j := by
  cases j with
  | obj members =>
      simp only [Json.fields?, Option.ite_none_right_eq_some, Option.some.injEq] at hvalues
      obtain ⟨⟨hnodup, hdeclared⟩, rfl⟩ := hvalues
      refine everyObject_obj_iff.2 ⟨⟨hnodup, hdeclared⟩, fun m hm => ?_⟩
      have hbare := (everyObject_obj_iff.1 hbare).2 m hm
      obtain ⟨f, hf, hname⟩ := List.mem_map.1 (hdeclared m hm)
      rw [← hname, Shape.member_record hnames hf] at hbare ⊢
      have hvalue : members.lookup f.1 = some m.2 :=
        (lookup_eq_some_iff_mem hnodup).2 (hname ▸ hm)
      refine hfields (f, members.lookup f.1) ?_ m.2 hvalue hbare
      obtain ⟨i, hi, rfl⟩ := List.mem_iff_getElem.1 hf
      exact List.mem_iff_getElem.2 ⟨i, by simpa using hi, by simp⟩
  | arr elements =>
      simp only [Json.fields?, Option.ite_none_right_eq_some, Option.some.injEq,
        List.length_map] at hvalues
      obtain ⟨hle, rfl⟩ := hvalues
      refine everyObject_arr_iff.2 fun i j hj => ?_
      have hbare := everyObject_arr_iff.1 hbare i j hj
      obtain ⟨hi, rfl⟩ := List.getElem?_eq_some_iff.1 hj
      have hshape : Shape.element elements (.record fields) i = fields[i].2 := by
        simp [Shape.element, Shape.slot, Shape.fields, List.getElem?_eq_getElem (hi.trans_le hle)]
      rw [hshape] at hbare ⊢
      refine hfields (fields[i], some elements[i]) ?_ _ rfl hbare
      refine List.mem_iff_getElem.2 ⟨i, by simp; omega, ?_⟩
      rw [List.getElem_zip, List.getElem_append_left (by simpa using hi), List.getElem_map]
  | _ => cases hvalues

/-- A reader of a field that may be missing follows a shape. -/
structure FollowsField {α : Type} (s : Shape) (read : Option Json → Option α) : Prop where
  trim : ∀ value : Option Json, read (value.map s.trim) = read value
  strict : ∀ {value a}, read value = some a → StrictField s value

section Fields

variable {α : Type} {s : Shape} {read : Json → Option α}

theorem Follows.required (h : Follows s read) : FollowsField s fun value => value.bind read where
  trim value := by cases value <;> simp [h.trim]
  strict := by
    rintro _ a hread j rfl hbare
    exact h.strict hread hbare

theorem FollowsField.map {β : Type} {read : Option Json → Option α} (h : FollowsField s read)
    (f : α → β) : FollowsField s fun value => (read value).map f where
  trim value := congrArg (Option.map f) (h.trim value)
  strict := by
    rintro value b hread
    obtain ⟨a, ha, -⟩ := Option.map_eq_some_iff.1 hread
    exact h.strict ha

theorem Follows.strictField (h : Follows s read) {value : Option Json} {a : α}
    (hread : ∃ j, value = some j ∧ read j = some a) : StrictField s value := by
  obtain ⟨j, rfl, hread⟩ := hread
  intro k hk hbare
  obtain rfl := Option.some.inj hk
  exact h.strict hread hbare

theorem FollowsField.orFalse : FollowsField .scalar boolOrFalse where
  trim value := by cases value <;> simp [Shape.trim_scalar]
  strict := by
    rintro _ a hread j rfl hbare t inner hobject
    cases hobject <;> cases hread

theorem Follows.orEmpty (h : Follows s read) : FollowsField (.list s) (listOrEmpty read) where
  trim value := by
    cases value with
    | none => rfl
    | some j => exact h.list.trim j
  strict := by
    rintro _ a hread j rfl hbare
    exact h.list.strict hread hbare

variable {K : Type} [LinearOrder K] {readKey : Json → Option K}

theorem Follows.set (h : Follows s readKey) : Follows (.list s) (set? readKey) :=
  h.list.map OrdSet.ofList

theorem Follows.setOrEmpty (h : Follows s readKey) :
    FollowsField (.list s) (Json.setOrEmpty readKey) where
  trim value := by
    cases value with
    | none => rfl
    | some j => exact h.set.trim j
  strict := by
    rintro _ a hread j rfl hbare
    exact h.set.strict hread hbare

end Fields

/-- A reader of a record looks at the fields alone, and its fields are read by readers that follow
their shapes. -/
theorem Follows.record {α : Type} {fields : List (String × Shape)} {read : Json → Option α}
    (hnames : (fields.map (·.1)).Nodup)
    (hnone : ∀ j, j.fields? (fields.map (·.1)) = none → read j = none)
    (hsome : ∀ values : List (Option Json), values.length = fields.length → ∀ j k,
      j.fields? (fields.map (·.1)) = some values →
      k.fields? (fields.map (·.1)) = some (Shape.trimFields fields values) →
      read k = read j ∧ ∀ a, read j = some a → StrictFields fields values) :
    Follows (.record fields) read where
  trim j := by
    have htrim := Shape.fields?_trim hnames j
    cases hvalues : j.fields? (fields.map (·.1)) with
    | none =>
        rw [hvalues] at htrim
        rw [hnone _ htrim, hnone _ hvalues]
    | some values =>
        rw [hvalues] at htrim
        have hlength : values.length = fields.length := by
          rw [length_fields? hvalues, List.length_map]
        exact (hsome values hlength j _ hvalues htrim).1
  strict := by
    intro j a hread hbare
    cases hvalues : j.fields? (fields.map (·.1)) with
    | none =>
        rw [hnone _ hvalues] at hread
        cases hread
    | some values =>
        have hlength : values.length = fields.length := by
          rw [length_fields? hvalues, List.length_map]
        have htrim := Shape.fields?_trim hnames j
        rw [hvalues] at htrim
        exact strict_record hnames hvalues
          ((hsome values hlength j _ hvalues htrim).2 a hread) hbare

section Adjacent

variable {α : Type} {tag content : String} {variants : List (String × Shape)}

/-- A reader of the names of variants. -/
theorem follows_variantName : Follows .variantName variantName? where
  trim j := by
    cases j with
    | obj members =>
        cases hname : (Json.obj members).variantName? with
        | some name =>
            rw [Shape.trim, show Shape.variantName.named? members = some name from hname]
            rfl
        | none =>
            have hmembers : members.filterMap (fun m => (Shape.kept members .variantName m.1).map
                fun s => (m.1, s.trim m.2)) = [] := List.filterMap_eq_nil_iff.2 fun m _ => rfl
            rw [Shape.trim_obj (s := .variantName) hname, Shape.trimMembers_eq, hmembers]
            rfl
    | _ => rfl
  strict := by
    intro j name hread hbare
    cases j with
    | str text => exact everyObject_leaf rfl rfl
    | obj members =>
        cases members with
        | nil => cases hread
        | cons m rest =>
            have hbareAt := (everyObject_obj_iff.1 hbare).1 m List.mem_cons_self
            cases hbareAt
    | _ => cases hread

theorem strict_adjacent_iff {j : Json} : Strict (.adjacent tag content variants) j ↔
    Strict (.record (Shape.fields j (.adjacent tag content variants))) j := by
  cases j with
  | obj members => rw [Strict, everyObject_obj_iff, everyObject_obj_iff]; rfl
  | arr elements => rw [Strict, everyObject_arr_iff, everyObject_arr_iff]; rfl
  | _ => exact iff_of_true (everyObject_leaf rfl rfl) (everyObject_leaf rfl rfl)

theorem bare_of_adjacent {j : Json} (h : Bare (.adjacent tag content variants) j) :
    Bare (.record (Shape.fields j (.adjacent tag content variants))) j := by
  cases j with
  | obj members => exact everyObject_obj_iff.2 ⟨fun _ _ => rfl, (everyObject_obj_iff.1 h).2⟩
  | arr elements => exact everyObject_arr_iff.2 fun i j hj => everyObject_arr_iff.1 h i j hj
  | _ => exact everyObject_leaf rfl rfl

theorem of_adjacent? {j : Json} {name : String} {value : Option Json}
    (h : j.adjacent? tag content = some (name, value)) :
    Shape.adjacentVariant? tag j = some name ∧
      ∃ nameJson, j.fields? [tag, content] = some [some nameJson, value] ∧
        nameJson.variantName? = some name := by
  unfold adjacent? at h
  split at h
  · rename_i nameJson valueJson
    obtain ⟨_, hname, heq⟩ := Option.map_eq_some_iff.1 h
    obtain ⟨rfl, rfl⟩ := Prod.mk.inj heq
    exact ⟨hname, nameJson, rfl, hname⟩
  · rename_i members
    split at h
    · rename_i tagJson value' hfields
      obtain ⟨_, htag, heq⟩ := Option.map_eq_some_iff.1 h
      obtain ⟨rfl, rfl⟩ := Prod.mk.inj heq
      obtain ⟨nameJson, rfl, hname⟩ := Option.bind_eq_some_iff.1 htag
      refine ⟨?_, nameJson, hfields, hname⟩
      simp only [Json.fields?, Option.ite_none_right_eq_some, Option.some.injEq, List.map_cons,
        List.cons.injEq] at hfields
      rw [Shape.adjacentVariant?, hfields.2.1]
      exact hname
    · cases h
  · cases h

/-- The tag of a trimmed value is the tag, and its content is the trimmed content. -/
theorem adjacent?_trim (hne : tag ≠ content) (j : Json) :
    (Shape.trim (.adjacent tag content variants) j).adjacent? tag content =
      (j.adjacent? tag content).map fun t =>
        (t.1, t.2.map (Shape.contentOf variants (Shape.adjacentVariant? tag j)).trim) := by
  cases j with
  | obj members =>
      have hrecord : Shape.trim (.adjacent tag content variants) (.obj members) =
          Shape.trim (.record (Shape.fields (.obj members) (.adjacent tag content variants)))
            (.obj members) := by
        rw [Shape.trim_obj rfl, Shape.trim_obj rfl]
        rfl
      have hfields : (Shape.trim (.adjacent tag content variants) (.obj members)).fields?
          [tag, content] = _ := hrecord ▸ Shape.fields?_trim (by simp [Shape.fields, hne]) _
      rw [Shape.trim_obj rfl] at hfields ⊢
      rw [adjacent?, adjacent?, hfields]
      simp only [Shape.fields, List.map_cons, List.map_nil]
      cases hvalues : (Json.obj members).fields? [tag, content] with
      | none => rfl
      | some values =>
          obtain ⟨name, value, rfl⟩ := List.length_eq_two.1 (length_fields? hvalues)
          simp only [Option.map_some, Shape.trimFields_cons, Shape.trimFields_nil,
            follows_variantName.required.trim, Option.map_map]
          rfl
  | arr elements =>
      rcases elements with _ | ⟨name, _ | ⟨value, _ | ⟨_, _⟩⟩⟩
      · rfl
      · rfl
      · rw [Shape.trim, Shape.trimElements, Shape.trimElements, Shape.trimElements, adjacent?,
          adjacent?]
        have hname : (Shape.trim (Shape.element [name, value] (.adjacent tag content variants) 0)
            name).variantName? = name.variantName? := follows_variantName.trim name
        rw [hname, Option.map_map]
        rfl
      · rfl
  | _ => rfl

theorem Follows.adjacent (hne : tag ≠ content) {body : String → Option Json → Option α}
    (h : ∀ name, FollowsField (Shape.contentOf variants (some name)) (body name)) :
    Follows (.adjacent tag content variants) fun j =>
      (j.adjacent? tag content).bind fun t => body t.1 t.2 where
  trim j := by
    rw [adjacent?_trim hne]
    cases hread : j.adjacent? tag content with
    | none => rfl
    | some t =>
        rw [(of_adjacent? hread).1]
        exact (h t.1).trim t.2
  strict := by
    intro j a hread hbare
    obtain ⟨⟨name, value⟩, htagged, hbody⟩ := Option.bind_eq_some_iff.1 hread
    obtain ⟨hvariant, nameJson, hfields, hname⟩ := of_adjacent? htagged
    have hbare := bare_of_adjacent hbare
    refine strict_adjacent_iff.2 ?_
    rw [Shape.fields, hvariant] at hbare ⊢
    refine strict_record (by simp [hne]) hfields ?_ hbare
    simp only [strictFields_cons, strictFields_nil, and_true]
    refine ⟨?_, (h name).strict hbody⟩
    rintro _ ⟨⟩ hbareName
    exact follows_variantName.strict hname hbareName

end Adjacent

end Foundation
