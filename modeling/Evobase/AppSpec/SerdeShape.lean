import Evobase.AppSpec.SerdeSorted
import Evobase.Foundation.JsonShape

/-!
# The declared members of a definition

The shapes that the declarations give to their encodings. Every reader of a declaration follows
its shape: unknown and repeated members are errors at every depth, except beside the tag of a
variant without fields, where they are skipped, and in an object that stands for the tag of a
value, whose one member is the tag.

A shape is compared with a document once, by `Shape.trim`, which leaves out what a reader skips,
and by `Shape.strict`, which refuses what a reader refuses. `Follows` connects a shape to a
reader, with one lemma for every form of record, list and variant.
-/

namespace Evobase

open Foundation

theorem lookup_filter_eq {V : Type} {l : List (String × V)} {name : String} :
    (l.filter fun m => m.1 = name).lookup name = l.lookup name := by
  induction l with
  | nil => rfl
  | cons m rest ih =>
      obtain ⟨other, v⟩ := m
      rw [lookup_cons_ite, List.filter_cons]
      by_cases hother : other = name
      · simp [hother]
      · rw [if_neg (by simpa using hother), ih, if_neg (Ne.symm hother)]

/-- What a reader of tagged values does with each variant: an unknown variant is an error, a
variant without fields tolerates its members, and every other variant is read as a record. -/
structure ReadsVariants {α : Type} (tag : String)
    (variants : List (String × List (String × Shape))) (body : String × Json → Option α) :
    Prop where
  unknown : ∀ v rest, variants.lookup v = none → body (v, rest) = none
  unit : ∀ v, variants.lookup v = some [] → ∃ a, ∀ rest,
    body (v, rest) = (untaggedUnit? rest).map fun _ => a
  fields : ∀ v fields, variants.lookup v = some fields → fields ≠ [] →
    tag ∉ fields.map (·.1) ∧ Follows (.record fields) fun rest => body (v, rest)

section Tagged

variable {α : Type} {tag : String} {variants : List (String × List (String × Shape))}
  {body : String × Json → Option α} {members : List (String × Json)} {v : String}

theorem variantFields?_of_filter {name : String}
    (h : members.filter (fun m => m.1 = tag) = [(name, .str v)]) :
    Shape.variantFields? tag variants (.obj members) = variants.lookup v := by
  have hname : name = tag := by
    have hmem : (name, Json.str v) ∈ members.filter (fun m => m.1 = tag) := by simp [h]
    simpa using (List.mem_filter.1 hmem).2
  have hlookup : members.lookup tag = some (.str v) := by
    rw [← lookup_filter_eq, h, hname]
    simp
  rw [Shape.variantFields?, Shape.variant?, hlookup]
  rfl

theorem filter_tag_trimMembers :
    (Shape.trimMembers (Shape.kept members (.tagged tag variants)) members).filter
      (fun m => m.1 = tag) = members.filter fun m => m.1 = tag := by
  rw [Shape.trimMembers_eq, List.filter_filterMap, ← List.filterMap_eq_filter]
  refine List.filterMap_congr fun m _ => ?_
  by_cases hm : m.1 = tag
  · obtain ⟨name, j⟩ := m
    obtain rfl : name = tag := hm
    have hkept : Shape.kept members (.tagged name variants) name = some .scalar := by
      simp [Shape.kept, Shape.tolerates, Shape.member, Shape.fields]
    rw [hkept, Option.map_some, Shape.trim_scalar]
    simp [Option.guard, Option.filter]
  · cases Shape.kept members (.tagged tag variants) m.1 <;>
      simp [Option.guard, Option.filter, hm]

theorem member_tagged {fields : List (String × Shape)}
    (h : Shape.variantFields? tag variants (.obj members) = some fields) {name : String}
    (hname : name ≠ tag) (rest : List (String × Json)) :
    Shape.member members (.tagged tag variants) name = Shape.member rest (.record fields) name := by
  rw [Shape.member, Shape.member, Shape.fields, Shape.fields, h, Option.getD_some, lookup_cons_ite,
    if_neg hname]

theorem filter_ne_trimMembers {fields : List (String × Shape)} (hfields : fields ≠ [])
    (h : Shape.variantFields? tag variants (.obj members) = some fields) :
    Json.obj ((Shape.trimMembers (Shape.kept members (.tagged tag variants)) members).filter
      (fun m => m.1 ≠ tag)) = Shape.trim (.record fields)
        (.obj (members.filter fun m => m.1 ≠ tag)) := by
  rw [Shape.trim_record_obj, Shape.trimMembers_eq, List.filter_filterMap,
    ← List.filterMap_eq_map, List.filterMap_filter]
  refine congrArg Json.obj (List.filterMap_congr fun m _ => ?_)
  by_cases hm : m.1 = tag
  · cases Shape.kept members (.tagged tag variants) m.1 <;> simp [hm]
  · have hkept : Shape.kept members (.tagged tag variants) m.1 =
        some (Shape.member (members.filter fun m => m.1 ≠ tag) (.record fields) m.1) := by
      rw [Shape.kept, if_neg, member_tagged h hm]
      simp [Shape.tolerates, h, hfields]
    rw [hkept]
    simp [hm]

theorem untag?_trim_obj (h : ReadsVariants tag variants body) :
    ((untag? tag (Shape.trim (.tagged tag variants) (.obj members))).bind body) =
      (untag? tag (.obj members)).bind body := by
  rw [Shape.trim_obj rfl, untag?, untag?, filter_tag_trimMembers]
  split
  · rename_i name v htag
    have hvariant : Shape.variantFields? tag variants (.obj members) = variants.lookup v :=
      variantFields?_of_filter htag
    simp only [Option.bind_some]
    cases hv : variants.lookup v with
    | none => rw [h.unknown v _ hv, h.unknown v _ hv]
    | some fields =>
        rw [hv] at hvariant
        by_cases hfields : fields = []
        · obtain ⟨a, ha⟩ := h.unit v (hfields ▸ hv)
          rw [ha, ha]
          rfl
        · rw [filter_ne_trimMembers hfields hvariant, (h.fields v fields hv hfields).2.trim]
  · rfl

theorem trim_tagged_arr (rest : List Json) :
    Shape.trim (.tagged tag variants) (.arr (.str v :: rest)) =
      .arr (.str v :: Shape.trimElements (Shape.slot ((variants.lookup v).getD [])) rest) := by
  rw [Shape.trim, Shape.trimElements]
  rfl

theorem untag?_trim_arr (h : ReadsVariants tag variants body) (elements : List Json) :
    ((untag? tag (Shape.trim (.tagged tag variants) (.arr elements))).bind body) =
      (untag? tag (.arr elements)).bind body := by
  match elements with
  | .str v :: rest =>
      rw [trim_tagged_arr]
      simp only [untag?, Option.bind_some]
      cases hv : variants.lookup v with
      | none => rw [h.unknown v _ hv, h.unknown v _ hv]
      | some fields =>
          by_cases hfields : fields = []
          · obtain ⟨a, ha⟩ := h.unit v (hfields ▸ hv)
            rw [ha, ha]
            cases rest <;> rfl
          · rw [← (h.fields v fields hv hfields).2.trim (.arr rest), Shape.trim]
            rfl
  | [] => rfl
  | .null :: _ | .bool _ :: _ | .int _ :: _ | .real _ :: _ | .arr _ :: _ | .obj _ :: _ => rfl

theorem strict_str (s : Shape) (text : String) : Strict s (.str text) := everyObject_leaf rfl rfl

theorem nodup_of_filter {name : String} (htag : members.filter (fun m => m.1 = tag) = [(name, .str v)])
    (hrest : ((members.filter fun m => m.1 ≠ tag).map (·.1)).Nodup) :
    (members.map (·.1)).Nodup := by
  have hperm : members.Perm (members.filter (fun m => m.1 = tag) ++
      members.filter fun m => m.1 ≠ tag) := by
    simpa using (List.filter_append_perm (fun m : String × Json => m.1 = tag) members).symm
  refine (hperm.map (·.1)).nodup_iff.2 ?_
  have hname : name = tag := by
    have hmem : (name, Json.str v) ∈ members.filter (fun m => m.1 = tag) := by simp [htag]
    simpa using (List.mem_filter.1 hmem).2
  rw [htag, List.map_append, List.map_singleton, List.singleton_append, hname]
  refine List.nodup_cons.2 ⟨fun hmem => ?_, hrest⟩
  obtain ⟨m, hm, heq⟩ := List.mem_map.1 hmem
  simpa [heq] using (List.mem_filter.1 hm).2

theorem strict_of_unit {name : String}
    (htag : members.filter (fun m => m.1 = tag) = [(name, .str v)])
    (hunit : variants.lookup v = some [])
    (hbare : Bare (.tagged tag variants) (.obj members)) :
    Strict (.tagged tag variants) (.obj members) := by
  have hvariant : Shape.variantFields? tag variants (.obj members) = variants.lookup v :=
    variantFields?_of_filter htag
  rw [hunit] at hvariant
  have halone : members.filter (fun m => m.1 = tag) = members := by
    refine List.filter_eq_self.2 fun m hm => ?_
    have htolerates := (everyObject_obj_iff.1 hbare).1 m hm
    simpa [Shape.tolerates, hvariant] using htolerates
  have hname : ∀ m ∈ members, m.1 = tag := by
    intro m hm
    rw [← halone] at hm
    exact of_decide_eq_true (List.mem_filter.1 hm).2
  rw [halone] at htag
  refine everyObject_obj_iff.2 ⟨⟨by simp [htag], fun m hm => ?_⟩, fun m hm => ?_⟩
  · rw [hname m hm, Shape.fields]
    exact List.mem_cons_self
  · obtain rfl : m = (name, .str v) := by simpa [htag] using hm
    exact strict_str _ v

theorem strict_of_fields {name : String} {fields : List (String × Shape)}
    (htag : members.filter (fun m => m.1 = tag) = [(name, .str v)])
    (hfields : variants.lookup v = some fields)
    (hrest : Strict (.record fields) (.obj (members.filter fun m => m.1 ≠ tag))) :
    Strict (.tagged tag variants) (.obj members) := by
  have hvariant : Shape.variantFields? tag variants (.obj members) = some fields :=
    (variantFields?_of_filter htag).trans hfields
  obtain ⟨⟨hnodup, hdeclared⟩, hmembers⟩ := everyObject_obj_iff.1 hrest
  refine everyObject_obj_iff.2 ⟨⟨nodup_of_filter htag hnodup, fun m hm => ?_⟩, fun m hm => ?_⟩
  · rw [Shape.fields, hvariant, Option.getD_some, List.map_cons]
    by_cases hm' : m.1 = tag
    · exact hm' ▸ List.mem_cons_self
    · exact List.mem_cons_of_mem _ (hdeclared m (List.mem_filter.2 ⟨hm, by simpa using hm'⟩))
  · by_cases hm' : m.1 = tag
    · have hmem : m ∈ members.filter fun m => m.1 = tag := List.mem_filter.2 ⟨hm, by simpa using hm'⟩
      obtain rfl : m = (name, .str v) := by simpa [htag] using hmem
      exact strict_str _ v
    · rw [member_tagged hvariant hm' (members.filter fun m => m.1 ≠ tag)]
      exact hmembers m (List.mem_filter.2 ⟨hm, by simpa using hm'⟩)

theorem strict_tagged_obj (h : ReadsVariants tag variants body) {a : α}
    (hread : ((untag? tag (.obj members)).bind body) = some a)
    (hbare : Bare (.tagged tag variants) (.obj members)) :
    Strict (.tagged tag variants) (.obj members) := by
  rw [untag?] at hread
  split at hread
  · rename_i name v htag
    rw [Option.bind_some] at hread
    cases hv : variants.lookup v with
    | none =>
        rw [h.unknown v _ hv] at hread
        cases hread
    | some fields =>
        by_cases hfields : fields = []
        · exact strict_of_unit htag (hfields ▸ hv) hbare
        · have hvariant : Shape.variantFields? tag variants (.obj members) = some fields :=
            (variantFields?_of_filter htag).trans hv
          refine strict_of_fields htag hv ((h.fields v fields hv hfields).2.strict hread ?_)
          refine everyObject_obj_iff.2 ⟨fun _ _ => rfl, fun m hm => ?_⟩
          obtain ⟨hm, hne⟩ := List.mem_filter.1 hm
          have hmember := (everyObject_obj_iff.1 hbare).2 m hm
          rwa [member_tagged hvariant (by simpa using hne)
            (members.filter fun m => m.1 ≠ tag)] at hmember
  · cases hread

/-- An accepted array is strict when it is bare. -/
theorem strict_tagged_arr (h : ReadsVariants tag variants body) {a : α} {elements : List Json}
    (hread : ((untag? tag (.arr elements)).bind body) = some a)
    (hbare : Bare (.tagged tag variants) (.arr elements)) :
    Strict (.tagged tag variants) (.arr elements) := by
  match elements with
  | .str v :: rest =>
      simp only [untag?, Option.bind_some] at hread
      have hslot : ∀ fields, variants.lookup v = some fields → ∀ i,
          Shape.element (.str v :: rest) (.tagged tag variants) (i + 1) =
            Shape.element rest (.record fields) i := by
        intro fields hv i
        simp [Shape.element, Shape.slot, Shape.fields, Shape.variantFields?, Shape.variant?, hv]
      refine everyObject_arr_iff.2 fun i j hj => ?_
      cases i with
      | zero =>
          obtain rfl : Json.str v = j := by simpa using hj
          exact strict_str _ v
      | succ i =>
          have hbareAt := everyObject_arr_iff.1 hbare (i + 1) j hj
          rw [List.getElem?_cons_succ] at hj
          cases hv : variants.lookup v with
          | none =>
              rw [h.unknown v _ hv] at hread
              cases hread
          | some fields =>
              by_cases hfields : fields = []
              · obtain ⟨b, hb⟩ := h.unit v (hfields ▸ hv)
                rw [hb] at hread
                cases rest with
                | nil => simp at hj
                | cons => simp [untaggedUnit?] at hread
              · rw [hslot fields hv]
                have hrest : Strict (.record fields) (.arr rest) := by
                  refine (h.fields v fields hv hfields).2.strict hread ?_
                  refine everyObject_arr_iff.2 fun i j hj => ?_
                  rw [← hslot fields hv]
                  exact everyObject_arr_iff.1 hbare (i + 1) j (by rwa [List.getElem?_cons_succ])
                exact everyObject_arr_iff.1 hrest i j hj
  | [] => cases hread
  | .null :: _ | .bool _ :: _ | .int _ :: _ | .real _ :: _ | .arr _ :: _ | .obj _ :: _ =>
      cases hread

theorem follows_tagged (h : ReadsVariants tag variants body) :
    Follows (.tagged tag variants) fun j => (untag? tag j).bind body where
  trim j := by
    cases j with
    | obj members => exact untag?_trim_obj h
    | arr elements => exact untag?_trim_arr h elements
    | _ => rfl
  strict := by
    intro j a hread hbare
    cases j with
    | obj members => exact strict_tagged_obj h hread hbare
    | arr elements => exact strict_tagged_arr h hread hbare
    | _ => cases hread

end Tagged

theorem follows_str : Follows .scalar Json.str? :=
  .scalar fun j a h => by cases j <;> first | exact ⟨rfl, rfl⟩ | cases h

theorem follows_int {lo hi : Int} : Follows .scalar (Json.int? : Json → Option (Bounded lo hi)) :=
  .scalar fun j a h => by cases j <;> first | exact ⟨rfl, rfl⟩ | cases h

theorem follows_bool : Follows .scalar Json.bool? :=
  .scalar fun j a h => by cases j <;> first | exact ⟨rfl, rfl⟩ | cases h

theorem Identity.follows {kind : IdKind} :
    Follows .scalar (Identity.ofJson : Json → Option (Identity kind)) :=
  .scalar fun j a h => by cases j <;> first | exact ⟨rfl, rfl⟩ | cases h

theorem RoleId.follows : Follows .scalar RoleId.ofJson :=
  .scalar fun j a h => by cases j <;> first | exact ⟨rfl, rfl⟩ | cases h

def FieldType.shape : Shape :=
  .tagged "type" [("text", []), ("integer", []), ("bool", []), ("money", []),
    ("ref", [("target_table", .scalar)])]

theorem FieldType.follows : Follows FieldType.shape ofJson := by
  refine follows_tagged ⟨fun v rest h => ?_, fun v h => ?_, fun v fields h hfields => ?_⟩
  · simp only [lookup_cons_ite, List.lookup_nil] at h
    split_ifs at h with htext hinteger hbool hmoney href
    simp [htext, hinteger, hbool, hmoney, href]
  · simp only [lookup_cons_ite, List.lookup_nil] at h
    split_ifs at h with htext hinteger hbool hmoney href
    · exact ⟨.text, fun rest => if_pos htext⟩
    · exact ⟨.integer, fun rest => by simp [hinteger]⟩
    · exact ⟨.bool, fun rest => by simp [hbool]⟩
    · exact ⟨.money, fun rest => by simp [hmoney]⟩
    · cases h
  · simp only [lookup_cons_ite, List.lookup_nil] at h
    split_ifs at h with htext hinteger hbool hmoney href
    · exact absurd (Option.some.inj h).symm hfields
    · exact absurd (Option.some.inj h).symm hfields
    · exact absurd (Option.some.inj h).symm hfields
    · exact absurd (Option.some.inj h).symm hfields
    · obtain rfl := Option.some.inj h
      subst href
      refine ⟨by decide, .record (by decide) (fun j h => by simp_all) fun values hlength j k hj hk => ?_⟩
      obtain ⟨targetTable, rfl⟩ := List.length_eq_one_iff.1 hlength
      simp only [List.map_cons, List.map_nil, Shape.trimFields_cons, Shape.trimFields_nil] at hj hk
      simp only [hj, hk, Identity.follows.required.trim, strictFields_cons, strictFields_nil,
        and_true, String.reduceEq, if_false, if_true, true_and, Option.map_eq_some_iff]
      rintro _ ⟨target, htarget, rfl⟩
      exact Identity.follows.required.strict htarget

def RawField.shape : Shape :=
  .record [("id", .scalar), ("name", .scalar), ("required", .scalar),
    ("field_type", FieldType.shape)]

theorem RawField.follows : Follows RawField.shape ofJson := by
  refine .record (by decide) (fun j h => by simp_all [ofJson]) fun values hlength j k hj hk => ?_
  obtain ⟨id, name, required, fieldType, rfl⟩ := List.length_eq_four.1 hlength
  simp only [List.map_cons, List.map_nil, Shape.trimFields_cons, Shape.trimFields_nil] at hj hk
  simp only [ofJson, hj, hk, Identity.follows.required.trim, follows_str.required.trim,
    FollowsField.orFalse.trim, FieldType.follows.required.trim, strictFields_cons,
    strictFields_nil, and_true, true_and, Option.bind_eq_bind, Option.bind_eq_some_iff]
  rintro a ⟨_, hid, _, hname, _, hrequired, _, hfieldType, -⟩
  exact ⟨Identity.follows.strictField hid, follows_str.strictField hname,
    FollowsField.orFalse.strict hrequired, FieldType.follows.strictField hfieldType⟩

def RawTable.shape : Shape :=
  .record [("id", .scalar), ("name", .scalar), ("fields", .list RawField.shape)]

theorem RawTable.follows : Follows RawTable.shape ofJson := by
  refine .record (by decide) (fun j h => by simp_all [ofJson]) fun values hlength j k hj hk => ?_
  obtain ⟨id, name, fields, rfl⟩ := List.length_eq_three.1 hlength
  simp only [List.map_cons, List.map_nil, Shape.trimFields_cons, Shape.trimFields_nil] at hj hk
  simp only [ofJson, hj, hk, Identity.follows.required.trim, follows_str.required.trim,
    RawField.follows.list.required.trim, strictFields_cons, strictFields_nil, and_true,
    true_and, Option.bind_eq_bind, Option.bind_eq_some_iff]
  rintro a ⟨_, hid, _, hname, _, hfields, -⟩
  exact ⟨Identity.follows.strictField hid, follows_str.strictField hname,
    RawField.follows.list.strictField hfields⟩

def CaptureRule.shape : Shape :=
  .record [("line_table", .scalar), ("product_ref_field", .scalar),
    ("product_price_field", .scalar), ("captured_price_field", .scalar)]

theorem CaptureRule.follows : Follows CaptureRule.shape ofJson := by
  refine .record (by decide) (fun j h => by simp_all [ofJson]) fun values hlength j k hj hk => ?_
  obtain ⟨lineTable, productRefField, productPriceField, capturedPriceField, rfl⟩ :=
    List.length_eq_four.1 hlength
  simp only [List.map_cons, List.map_nil, Shape.trimFields_cons, Shape.trimFields_nil] at hj hk
  simp only [ofJson, hj, hk, Identity.follows.required.trim, strictFields_cons,
    strictFields_nil, and_true, true_and, Option.bind_eq_bind, Option.bind_eq_some_iff]
  rintro a ⟨_, hlineTable, _, hproductRefField, _, hproductPriceField, _, hcapturedPriceField,
    -⟩
  exact ⟨Identity.follows.strictField hlineTable,
    Identity.follows.strictField hproductRefField,
    Identity.follows.strictField hproductPriceField,
    Identity.follows.strictField hcapturedPriceField⟩

def Constraint.shape : Shape :=
  .tagged "kind" [("non_empty", []), ("text_length", [("min", .scalar), ("max", .scalar)]),
    ("numeric_range", [("min", .scalar), ("max", .scalar)])]

theorem bounds?_follows {lo hi : Int} : Follows (.record [("min", .scalar), ("max", .scalar)])
    (bounds? : Json → Option (Bounded lo hi × Bounded lo hi)) := by
  refine .record (by decide) (fun j h => by simp_all [bounds?]) fun values hlength j k hj hk => ?_
  obtain ⟨min, max, rfl⟩ := List.length_eq_two.1 hlength
  simp only [List.map_cons, List.map_nil, Shape.trimFields_cons, Shape.trimFields_nil] at hj hk
  simp only [bounds?, hj, hk, follows_int.required.trim, strictFields_cons, strictFields_nil,
    and_true, true_and, Option.bind_eq_bind, Option.bind_eq_some_iff]
  rintro a ⟨_, hmin, _, hmax, -⟩
  exact ⟨follows_int.strictField hmin, follows_int.strictField hmax⟩

theorem Constraint.follows : Follows Constraint.shape ofJson := by
  refine follows_tagged ⟨fun v rest h => ?_, fun v h => ?_, fun v fields h hfields => ?_⟩
  · simp only [lookup_cons_ite, List.lookup_nil] at h
    split_ifs at h with hempty hlength hrange
    simp [hempty, hlength, hrange]
  · simp only [lookup_cons_ite, List.lookup_nil] at h
    split_ifs at h with hempty
    · exact ⟨.nonEmpty, fun rest => if_pos hempty⟩
    · cases h
    · cases h
  · simp only [lookup_cons_ite, List.lookup_nil] at h
    split_ifs at h with hempty hlength hrange
    · exact absurd (Option.some.inj h).symm hfields
    · obtain rfl := Option.some.inj h
      subst hlength
      exact ⟨by decide, by simpa using bounds?_follows.map fun b => Constraint.textLength b.1 b.2⟩
    · obtain rfl := Option.some.inj h
      subst hrange
      exact ⟨by decide, by simpa using bounds?_follows.map fun b => Constraint.numericRange b.1 b.2⟩

def RawFieldConstraint.shape : Shape :=
  .record [("constraint_id", .scalar), ("table_id", .scalar), ("field_id", .scalar),
    ("constraint", Constraint.shape)]

theorem RawFieldConstraint.follows : Follows RawFieldConstraint.shape ofJson := by
  refine .record (by decide) (fun j h => by simp_all [ofJson]) fun values hlength j k hj hk => ?_
  obtain ⟨constraintId, tableId, fieldId, constraint, rfl⟩ := List.length_eq_four.1 hlength
  simp only [List.map_cons, List.map_nil, Shape.trimFields_cons, Shape.trimFields_nil] at hj hk
  simp only [ofJson, hj, hk, Identity.follows.required.trim, Constraint.follows.required.trim,
    strictFields_cons, strictFields_nil, and_true, true_and, Option.bind_eq_bind,
    Option.bind_eq_some_iff]
  rintro a ⟨_, hconstraintId, _, htableId, _, hfieldId, _, hconstraint, -⟩
  exact ⟨Identity.follows.strictField hconstraintId, Identity.follows.strictField htableId,
    Identity.follows.strictField hfieldId, Constraint.follows.strictField hconstraint⟩

def RawOwnerRolePolicy.shape : Shape :=
  .record [("rule_id", .scalar), ("revision", .scalar), ("table_id", .scalar),
    ("owner_field", .scalar), ("read_fields", .list .scalar), ("read_roles", .list .scalar),
    ("write_roles", .list .scalar), ("submit_roles", .list .scalar)]

theorem RawOwnerRolePolicy.follows : Follows RawOwnerRolePolicy.shape ofJson := by
  refine .record (by decide) (fun j h => by simp_all [ofJson]) fun values hlength j k hj hk => ?_
  simp only [List.length_cons, List.length_nil, List.length_eq_succ_iff,
    List.length_eq_zero_iff] at hlength
  obtain ⟨ruleId, _, rfl, revision, _, rfl, tableId, _, rfl, ownerField, _, rfl, readFields, _, rfl,
    readRoles, _, rfl, writeRoles, _, rfl, submitRoles, _, rfl, rfl⟩ := hlength
  simp only [List.map_cons, List.map_nil, Shape.trimFields_cons, Shape.trimFields_nil] at hj hk
  simp only [ofJson, hj, hk, follows_str.required.trim, follows_int.required.trim,
    Identity.follows.required.trim, Identity.follows.set.required.trim,
    RoleId.follows.set.required.trim, strictFields_cons, strictFields_nil, and_true, true_and,
    Option.bind_eq_bind, Option.bind_eq_some_iff]
  rintro a ⟨_, hruleId, _, hrevision, _, htableId, _, hownerField, _, hreadFields, _,
    hreadRoles, _, hwriteRoles, _, hsubmitRoles, -⟩
  exact ⟨follows_str.strictField hruleId, follows_int.strictField hrevision,
    Identity.follows.strictField htableId, Identity.follows.strictField hownerField,
    Identity.follows.set.strictField hreadFields, RoleId.follows.set.strictField hreadRoles,
    RoleId.follows.set.strictField hwriteRoles, RoleId.follows.set.strictField hsubmitRoles⟩

def RawSubmitOrderRule.shape : Shape :=
  .record [("rule_id", .scalar), ("revision", .scalar), ("policy_rule_id", .scalar),
    ("order_table", .scalar), ("state_field", .scalar), ("notes_field", .scalar),
    ("line_table", .scalar), ("line_order_field", .scalar), ("quantity_field", .scalar),
    ("captured_price_field", .scalar)]

theorem RawSubmitOrderRule.follows : Follows RawSubmitOrderRule.shape ofJson := by
  refine .record (by decide) (fun j h => by simp_all [ofJson]) fun values hlength j k hj hk => ?_
  simp only [List.length_cons, List.length_nil, List.length_eq_succ_iff,
    List.length_eq_zero_iff] at hlength
  obtain ⟨ruleId, _, rfl, revision, _, rfl, policyRuleId, _, rfl, orderTable, _, rfl, stateField, _,
    rfl, notesField, _, rfl, lineTable, _, rfl, lineOrderField, _, rfl, quantityField, _, rfl,
    capturedPriceField, _, rfl, rfl⟩ := hlength
  simp only [List.map_cons, List.map_nil, Shape.trimFields_cons, Shape.trimFields_nil] at hj hk
  simp only [ofJson, hj, hk, follows_str.required.trim, follows_int.required.trim,
    Identity.follows.required.trim, strictFields_cons, strictFields_nil, and_true, true_and,
    Option.bind_eq_bind, Option.bind_eq_some_iff]
  rintro a ⟨_, hruleId, _, hrevision, _, hpolicyRuleId, _, horderTable, _, hstateField, _,
    hnotesField, _, hlineTable, _, hlineOrderField, _, hquantityField, _, hcapturedPriceField,
    -⟩
  exact ⟨follows_str.strictField hruleId, follows_int.strictField hrevision,
    follows_str.strictField hpolicyRuleId, Identity.follows.strictField horderTable,
    Identity.follows.strictField hstateField, Identity.follows.strictField hnotesField,
    Identity.follows.strictField hlineTable, Identity.follows.strictField hlineOrderField,
    Identity.follows.strictField hquantityField,
    Identity.follows.strictField hcapturedPriceField⟩

def Scope.shape : Shape :=
  .record [("tenant_id", .scalar), ("app_id", .scalar)]

theorem Scope.follows : Follows Scope.shape ofJson := by
  refine .record (by decide) (fun j h => by simp_all [ofJson]) fun values hlength j k hj hk => ?_
  obtain ⟨tenantId, appId, rfl⟩ := List.length_eq_two.1 hlength
  simp only [List.map_cons, List.map_nil, Shape.trimFields_cons, Shape.trimFields_nil] at hj hk
  simp only [ofJson, hj, hk, follows_str.required.trim, Identity.follows.required.trim,
    strictFields_cons, strictFields_nil, and_true, true_and, Option.bind_eq_bind,
    Option.bind_eq_some_iff]
  rintro a ⟨_, htenantId, _, happId, -⟩
  exact ⟨follows_str.strictField htenantId, Identity.follows.strictField happId⟩

def RecordRef.shape : Shape :=
  .record [("scope", Scope.shape), ("table_id", .scalar), ("record_id", .scalar)]

theorem RecordRef.follows : Follows RecordRef.shape ofJson := by
  refine .record (by decide) (fun j h => by simp_all [ofJson]) fun values hlength j k hj hk => ?_
  obtain ⟨scope, tableId, recordId, rfl⟩ := List.length_eq_three.1 hlength
  simp only [List.map_cons, List.map_nil, Shape.trimFields_cons, Shape.trimFields_nil] at hj hk
  simp only [ofJson, hj, hk, Scope.follows.required.trim, Identity.follows.required.trim,
    strictFields_cons, strictFields_nil, and_true, true_and, Option.bind_eq_bind,
    Option.bind_eq_some_iff]
  rintro a ⟨_, hscope, _, htableId, _, hrecordId, -⟩
  exact ⟨Scope.follows.strictField hscope, Identity.follows.strictField htableId,
    Identity.follows.strictField hrecordId⟩

def Value.variants : List (String × Shape) :=
  [("blank", .scalar), ("null", .scalar), ("text", .scalar), ("integer", .scalar),
    ("bool", .scalar), ("money", .scalar), ("ref", RecordRef.shape)]

def Value.shape : Shape := .adjacent "type" "value" Value.variants

namespace Value

theorem follows_unit? (v : Value) : FollowsField .scalar (unit? v) where
  trim content := by cases content <;> simp [Shape.trim_scalar]
  strict := by
    rintro content u hread j rfl _
    cases j with
    | null => exact everyObject_leaf rfl rfl
    | _ => cases hread

theorem follows_ofTagged (tag : String) :
    FollowsField (Shape.contentOf variants (some tag)) (ofTagged tag) := by
  have hcontent : Shape.contentOf variants (some tag) =
      if tag = "ref" then RecordRef.shape else .scalar := by
    simp only [Shape.contentOf, variants, Option.bind_some, lookup_cons_ite, List.lookup_nil]
    split_ifs <;> simp_all
  rw [hcontent]
  by_cases href : tag = "ref"
  · have hread : ofTagged tag = fun content => (content.bind RecordRef.ofJson).map .ref :=
      funext fun content => by simp [ofTagged, href]
    rw [if_pos href, hread]
    exact RecordRef.follows.required.map Value.ref
  · rw [if_neg href]
    unfold ofTagged
    split_ifs
    · exact follows_unit? .blank
    · exact follows_unit? .null
    · exact follows_str.required.map Value.text
    · exact follows_int.required.map Value.integer
    · exact follows_bool.required.map Value.bool
    · exact follows_int.required.map Value.money
    · refine ⟨fun _ => rfl, fun h => ?_⟩
      cases h

theorem follows : Follows Value.shape ofJson := .adjacent (by decide) follows_ofTagged

end Value

def RawStateMachine.shape : Shape :=
  .record [("machine_id", .scalar), ("table_id", .scalar), ("state_field", .scalar),
    ("states", .list .scalar), ("terminal_states", .list .scalar)]

theorem RawStateMachine.follows : Follows RawStateMachine.shape ofJson := by
  refine .record (by decide) (fun j h => by simp_all [ofJson]) fun values hlength j k hj hk => ?_
  simp only [List.length_cons, List.length_nil, List.length_eq_succ_iff,
    List.length_eq_zero_iff] at hlength
  obtain ⟨machineId, _, rfl, tableId, _, rfl, stateField, _, rfl, states, _, rfl, terminalStates, _,
    rfl, rfl⟩ := hlength
  simp only [List.map_cons, List.map_nil, Shape.trimFields_cons, Shape.trimFields_nil] at hj hk
  simp only [ofJson, hj, hk, Identity.follows.required.trim, follows_str.set.required.trim,
    follows_str.setOrEmpty.trim, strictFields_cons, strictFields_nil, and_true, true_and,
    Option.bind_eq_bind, Option.bind_eq_some_iff]
  rintro a ⟨_, hmachineId, _, htableId, _, hstateField, _, hstates, _, hterminalStates, -⟩
  exact ⟨Identity.follows.strictField hmachineId, Identity.follows.strictField htableId,
    Identity.follows.strictField hstateField, follows_str.set.strictField hstates,
    follows_str.setOrEmpty.strict hterminalStates⟩

def CommandInput.shape : Shape :=
  .record [("field_id", .scalar), ("required", .scalar), ("constraints", .list Constraint.shape)]

theorem CommandInput.follows : Follows CommandInput.shape ofJson := by
  refine .record (by decide) (fun j h => by simp_all [ofJson]) fun values hlength j k hj hk => ?_
  obtain ⟨fieldId, required, constraints, rfl⟩ := List.length_eq_three.1 hlength
  simp only [List.map_cons, List.map_nil, Shape.trimFields_cons, Shape.trimFields_nil] at hj hk
  simp only [ofJson, hj, hk, Identity.follows.required.trim, FollowsField.orFalse.trim,
    Constraint.follows.orEmpty.trim, strictFields_cons, strictFields_nil, and_true, true_and,
    Option.bind_eq_bind, Option.bind_eq_some_iff]
  rintro a ⟨_, hfieldId, _, hrequired, _, hconstraints, -⟩
  exact ⟨Identity.follows.strictField hfieldId, FollowsField.orFalse.strict hrequired,
    Constraint.follows.orEmpty.strict hconstraints⟩

def CommandGuard.shape : Shape :=
  .record [("field_id", .scalar), ("equals", Value.shape)]

theorem CommandGuard.follows : Follows CommandGuard.shape ofJson := by
  refine .record (by decide) (fun j h => by simp_all [ofJson]) fun values hlength j k hj hk => ?_
  obtain ⟨fieldId, equals, rfl⟩ := List.length_eq_two.1 hlength
  simp only [List.map_cons, List.map_nil, Shape.trimFields_cons, Shape.trimFields_nil] at hj hk
  simp only [ofJson, hj, hk, Identity.follows.required.trim, Value.follows.required.trim,
    strictFields_cons, strictFields_nil, and_true, true_and, Option.bind_eq_bind,
    Option.bind_eq_some_iff]
  rintro a ⟨_, hfieldId, _, hequals, -⟩
  exact ⟨Identity.follows.strictField hfieldId, Value.follows.strictField hequals⟩

def RawEventIntent.shape : Shape :=
  .record [("event_id", .scalar), ("fields", .list .scalar)]

theorem RawEventIntent.follows : Follows RawEventIntent.shape ofJson := by
  refine .record (by decide) (fun j h => by simp_all [ofJson]) fun values hlength j k hj hk => ?_
  obtain ⟨eventId, fields, rfl⟩ := List.length_eq_two.1 hlength
  simp only [List.map_cons, List.map_nil, Shape.trimFields_cons, Shape.trimFields_nil] at hj hk
  simp only [ofJson, hj, hk, Identity.follows.required.trim,
    Identity.follows.set.required.trim, strictFields_cons, strictFields_nil, and_true,
    true_and, Option.bind_eq_bind, Option.bind_eq_some_iff]
  rintro a ⟨_, heventId, _, hfields, -⟩
  exact ⟨Identity.follows.strictField heventId, Identity.follows.set.strictField hfields⟩

def RawCommand.shape : Shape :=
  .record [("command_id", .scalar), ("revision", .scalar), ("policy_rule_id", .scalar),
    ("state_machine_id", .scalar), ("from_state", .scalar), ("to_state", .scalar),
    ("inputs", .list CommandInput.shape), ("guards", .list CommandGuard.shape),
    ("events", .list RawEventIntent.shape)]

theorem RawCommand.follows : Follows RawCommand.shape ofJson := by
  refine .record (by decide) (fun j h => by simp_all [ofJson]) fun values hlength j k hj hk => ?_
  simp only [List.length_cons, List.length_nil, List.length_eq_succ_iff,
    List.length_eq_zero_iff] at hlength
  obtain ⟨commandId, _, rfl, revision, _, rfl, policyRuleId, _, rfl, stateMachineId, _, rfl,
    fromState, _, rfl, toState, _, rfl, inputs, _, rfl, guards, _, rfl, events, _, rfl, rfl⟩ :=
    hlength
  simp only [List.map_cons, List.map_nil, Shape.trimFields_cons, Shape.trimFields_nil] at hj hk
  simp only [ofJson, hj, hk, Identity.follows.required.trim, follows_int.required.trim,
    follows_str.required.trim, CommandInput.follows.orEmpty.trim,
    CommandGuard.follows.orEmpty.trim, RawEventIntent.follows.orEmpty.trim, strictFields_cons,
    strictFields_nil, and_true, true_and, Option.bind_eq_bind, Option.bind_eq_some_iff]
  rintro a ⟨_, hcommandId, _, hrevision, _, hpolicyRuleId, _, hstateMachineId, _, hfromState,
    _, htoState, _, hinputs, _, hguards, _, hevents, -⟩
  exact ⟨Identity.follows.strictField hcommandId, follows_int.strictField hrevision,
    follows_str.strictField hpolicyRuleId, Identity.follows.strictField hstateMachineId,
    follows_str.strictField hfromState, follows_str.strictField htoState,
    CommandInput.follows.orEmpty.strict hinputs, CommandGuard.follows.orEmpty.strict hguards,
    RawEventIntent.follows.orEmpty.strict hevents⟩

def RawAppSpec.shape : Shape :=
  .record [("version", .scalar), ("app_id", .scalar), ("name", .scalar),
    ("tables", .list RawTable.shape), ("capture_rules", .list CaptureRule.shape),
    ("policies", .list RawOwnerRolePolicy.shape),
    ("submit_rules", .list RawSubmitOrderRule.shape),
    ("constraints", .list RawFieldConstraint.shape),
    ("state_machines", .list RawStateMachine.shape), ("commands", .list RawCommand.shape)]

theorem RawAppSpec.follows : Follows RawAppSpec.shape ofJson := by
  refine .record (by decide) (fun j h => by simp_all [ofJson]) fun values hlength j k hj hk => ?_
  simp only [List.length_cons, List.length_nil, List.length_eq_succ_iff,
    List.length_eq_zero_iff] at hlength
  obtain ⟨version, _, rfl, appId, _, rfl, name, _, rfl, tables, _, rfl, captureRules, _, rfl,
    policies, _, rfl, submitRules, _, rfl, constraints, _, rfl, stateMachines, _, rfl, commands, _,
    rfl, rfl⟩ := hlength
  simp only [List.map_cons, List.map_nil, Shape.trimFields_cons, Shape.trimFields_nil] at hj hk
  simp only [ofJson, hj, hk, follows_int.required.trim, Identity.follows.required.trim,
    follows_str.required.trim, RawTable.follows.list.required.trim,
    CaptureRule.follows.orEmpty.trim, RawOwnerRolePolicy.follows.orEmpty.trim,
    RawSubmitOrderRule.follows.orEmpty.trim, RawFieldConstraint.follows.orEmpty.trim,
    RawStateMachine.follows.orEmpty.trim, RawCommand.follows.orEmpty.trim, strictFields_cons,
    strictFields_nil, and_true, true_and, Option.bind_eq_bind, Option.bind_eq_some_iff]
  rintro a ⟨_, hversion, _, happId, _, hname, _, htables, _, hcaptureRules, _, hpolicies, _,
    hsubmitRules, _, hconstraints, _, hstateMachines, _, hcommands, -⟩
  exact ⟨follows_int.strictField hversion, Identity.follows.strictField happId,
    follows_str.strictField hname, RawTable.follows.list.strictField htables,
    CaptureRule.follows.orEmpty.strict hcaptureRules,
    RawOwnerRolePolicy.follows.orEmpty.strict hpolicies,
    RawSubmitOrderRule.follows.orEmpty.strict hsubmitRules,
    RawFieldConstraint.follows.orEmpty.strict hconstraints,
    RawStateMachine.follows.orEmpty.strict hstateMachines,
    RawCommand.follows.orEmpty.strict hcommands⟩

end Evobase
