import Evobase.AppSpec.Canonical
import Evobase.AppSpec.SerdeShape

/-!
# Which members a definition may have

Decoding a definition refuses unknown and repeated members at every depth, with two exceptions.
A field type without a target table and the constraint without bounds are objects with nothing
but a tag, and members beside that tag are not looked at. The value of a guard is tagged from
beside, and its tag may be an object whose one member has the tag for its name and is null. A
document with such members is decoded exactly when the document is that has no members beside
those tags and names for those objects (`decode_strict_iff`).
-/

namespace Evobase

open Foundation

/-- Decoding does not see the members beside the tag of a variant without fields, nor whether a
tag is a name or an object with the name. -/
theorem decode_eq_ok_iff {reader : JsonReader} {bytes : List UInt8} {doc : Json}
    (hparse : reader.parse bytes = some doc) (hlimits : preflight bytes = .ok ())
    {spec : RawAppSpec} :
    decode reader bytes = .ok spec ↔
      ∃ raw, RawAppSpec.ofJson (RawAppSpec.shape.trim doc) = some raw ∧ compile raw = .ok spec := by
  rw [decode, hlimits, ok_bind, hparse, Option.bind_some, RawAppSpec.follows.trim]
  simp only [bind_eq_ok, okOr_eq_ok]

theorem strict_of_decode {reader : JsonReader} {bytes : List UInt8} {doc : Json}
    (hparse : reader.parse bytes = some doc) (hlimits : preflight bytes = .ok ())
    {spec : RawAppSpec} (hdecode : decode reader bytes = .ok spec)
    (hbare : Bare RawAppSpec.shape doc) : Strict RawAppSpec.shape doc := by
  obtain ⟨raw, hread, -⟩ := (decode_eq_ok_iff hparse hlimits).1 hdecode
  rw [RawAppSpec.follows.trim] at hread
  exact RawAppSpec.follows.strict hread hbare

theorem not_declares_of_tolerates {s : Shape} {members : List (String × Json)}
    {m : String × Json} (hm : m ∈ members) (h : s.tolerates members m.1 = true) :
    ¬ s.Declares members := by
  intro hdeclares
  cases s with
  | tagged tag variants =>
      simp only [Shape.tolerates, Bool.and_eq_true, decide_eq_true_eq, Option.any_eq_true,
        List.isEmpty_iff] at h
      obtain ⟨⟨fields, hfields, rfl⟩, hname⟩ := h
      have hmem := hdeclares.2 m hm
      rw [Shape.fields, hfields] at hmem
      simp [hname] at hmem
  | variantName => cases hdeclares.2 m hm
  | _ => cases h

/-- Decoding is strict except beside the tags of variants without fields and in objects for tags.
For a JSON document within the limits, an object with an unknown or a repeated member, at any
depth, makes the decoding fail if and only if the document has no member beside the tag of a
variant without fields and none in an object for a tag, or the document without the former, and
with the names for the latter, is not one of a definition that compiles. -/
theorem decode_strict_iff (reader : JsonReader) (bytes : List UInt8) (doc : Json)
    (hparse : reader.parse bytes = some doc) (hlimits : preflight bytes = .ok ()) :
    ((∃ s members, HasObject RawAppSpec.shape doc s members ∧ ¬ s.Declares members) →
        ∃ e, decode reader bytes = .error e) ↔
      Bare RawAppSpec.shape doc ∨
        ¬ ∃ raw spec, RawAppSpec.ofJson (RawAppSpec.shape.trim doc) = some raw ∧
          compile raw = .ok spec := by
  constructor
  · intro h
    by_cases hbare : Bare RawAppSpec.shape doc
    · exact .inl hbare
    · right
      rintro ⟨raw, spec, haccepted⟩
      have hdecode := (decode_eq_ok_iff hparse hlimits).2 ⟨raw, haccepted⟩
      simp only [Bare, EveryObject, not_forall, Bool.not_eq_false] at hbare
      obtain ⟨s, members, hobject, m, hm, htolerates⟩ := hbare
      obtain ⟨e, he⟩ := h ⟨s, members, hobject, not_declares_of_tolerates hm htolerates⟩
      rw [hdecode] at he
      cases he
  · rintro h ⟨s, members, hobject, hundeclared⟩
    cases hdecode : decode reader bytes with
    | error e => exact ⟨e, rfl⟩
    | ok spec =>
        obtain ⟨raw, haccepted⟩ := (decode_eq_ok_iff hparse hlimits).1 hdecode
        have hbare := h.resolve_right (not_not.2 ⟨raw, spec, haccepted⟩)
        exact absurd (strict_of_decode hparse hlimits hdecode hbare s members hobject) hundeclared

/-- A definition with one field, whose type has a member beside its tag. -/
def extraDocument : Json :=
  .obj [("version", .ofU32 versionTwo), ("app_id", .str "app_t"), ("name", .str "T"),
    ("tables", .arr [.obj [("id", .str "tbl_t"), ("name", .str "T"),
      ("fields", .arr [.obj [("id", .str "fld_n"), ("name", .str "N"),
        ("field_type", .obj [("type", .str "text"), ("extra", .bool true)])]])]])]

theorem parse_extraDocument : compactReader.parse extraDocument.print = some extraDocument := by
  refine compactReader.parse_print _ ?_ ?_
  · simp [extraDocument, Json.Exact, Json.ExactMembers, Json.ExactElements]
  · decide +kernel

theorem preflight_extraDocument : preflight extraDocument.print = .ok () := by
  decide +kernel

theorem decode_extraDocument : ∃ spec, decode compactReader extraDocument.print = .ok spec :=
  exists_eq_ok (by decide +kernel)

theorem undeclared_extraDocument : ∃ s members,
    HasObject RawAppSpec.shape extraDocument s members ∧ ¬ s.Declares members := by
  refine ⟨FieldType.shape, [("type", .str "text"), ("extra", .bool true)], ?_, ?_⟩
  · refine .member (List.mem_of_getElem? (i := 3) rfl) ?_
    refine .element (i := 0) rfl ?_
    refine .member (List.mem_of_getElem? (i := 2) rfl) ?_
    refine .element (i := 0) rfl ?_
    refine .member (List.mem_of_getElem? (i := 2) rfl) ?_
    exact .here
  · intro h
    have hextra := h.2 ("extra", .bool true) (by simp)
    revert hextra
    decide

theorem decode_strict_fails :
    compactReader.parse extraDocument.print = some extraDocument ∧
      preflight extraDocument.print = .ok () ∧
      (∃ s members, HasObject RawAppSpec.shape extraDocument s members ∧ ¬ s.Declares members) ∧
      ∃ spec, decode compactReader extraDocument.print = .ok spec :=
  ⟨parse_extraDocument, preflight_extraDocument, undeclared_extraDocument, decode_extraDocument⟩

theorem decode_strict_iff_extra :
    ¬ Bare RawAppSpec.shape extraDocument ∧
      ∃ raw spec, RawAppSpec.ofJson (RawAppSpec.shape.trim extraDocument) = some raw ∧
        compile raw = .ok spec := by
  obtain ⟨spec, hspec⟩ := decode_extraDocument
  have hiff := decode_strict_iff compactReader extraDocument.print extraDocument
    parse_extraDocument preflight_extraDocument
  have hfails : ¬ (Bare RawAppSpec.shape extraDocument ∨
      ¬ ∃ raw spec, RawAppSpec.ofJson (RawAppSpec.shape.trim extraDocument) = some raw ∧
        compile raw = .ok spec) := by
    intro h
    obtain ⟨e, he⟩ := hiff.2 h undeclared_extraDocument
    rw [hspec] at he
    cases he
  rw [not_or, not_not] at hfails
  exact hfails

end Evobase
