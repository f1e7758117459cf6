import Evobase.AppSpec.SerdeSorted
import Evobase.Store.Tables

/-!
# Intents as bytes

A store compares requests by the bytes of what they ask for: the definition, the expected
revision, the command, the record and the inputs. Two requests with the same bytes ask
for the same (`identity_injective`); the key of a request is not part of them.
-/

namespace Evobase

open Foundation

/-- What a request asks of a definition at a revision. -/
def identityJson (specIdentity : String) (expectedRevision : U64) (spec : RawAppSpec)
    (request : RawCommandRequest) : Json :=
  Json.sortKeys (.ofFields [("spec_identity", some (.str specIdentity)),
    ("expected_revision", some (.ofU64 expectedRevision)),
    ("semantic_intent", some (intentJson spec request))])

theorem exact_identityJson (specIdentity : String) (expectedRevision : U64) (spec : RawAppSpec)
    (request : RawCommandRequest) :
    (identityJson specIdentity expectedRevision spec request).Exact :=
  Json.exact_sortKeys (Json.exact_ofFields (by simp))

/-- The intent of a prepared request is read back, so its identity is the identity of the
request. -/
theorem Store.normalizedIdentity_eq {store : Store} {snapshot : Snapshot} {expectedRevision : U64}
    {spec : RawAppSpec} {request : RawCommandRequest} (hfits : Fits (intentJson spec request)) :
    store.normalizedIdentity snapshot expectedRevision (intentJson spec request).print =
      Store.encode (identityJson snapshot.specIdentity expectedRevision spec request) := by
  have hdepth : (intentJson spec request).depth ≤ 127 := hfits.depth.trans (by decide)
  rw [normalizedIdentity, store.reader.parse_print _ (exact_intentJson spec request) hdepth]
  rfl

theorem Identity.eq_of_sortKeys_eq {kind : IdKind} {a b : Identity kind}
    (h : Json.sortKeys a.toJson = Json.sortKeys b.toJson) : a = b := by
  simp only [Identity.toJson, Json.sortKeys, Json.str.injEq] at h
  exact Identity.text_injective h

theorem ofU64_injective {a b : U64} (h : Json.ofU64 a = Json.ofU64 b) : a = b := by
  have hval := congrArg Bounded.val (Json.int.inj h)
  exact Bounded.ext_val hval

theorem Value.eq_of_sortKeys_eq {v w : Value}
    (h : Json.sortKeys v.toJson = Json.sortKeys w.toJson) : v = w := by
  have hread := v.ofJson_sortKeys
  rw [h, w.ofJson_sortKeys] at hread
  exact (Option.some.inj hread).symm

theorem eq_of_sortKeys_valuesToJson_eq {m n : OrdMap FieldId Value}
    (h : Json.sortKeys (valuesToJson m) = Json.sortKeys (valuesToJson n)) : m = n :=
  Json.eq_of_sortKeys_ofMap_eq (fun hlt => Identity.text_lt_text.2 hlt) Identity.text_injective
    (fun _ _ => Value.eq_of_sortKeys_eq) h

/-- What a request asks, and of which definition at which revision, can be told from its
identity. -/
theorem eq_of_identityJson_eq {specIdentity specIdentity' : String} {revision revision' : U64}
    {spec spec' : RawAppSpec} {request request' : RawCommandRequest}
    (h : identityJson specIdentity revision spec request =
      identityJson specIdentity' revision' spec' request') :
    specIdentity = specIdentity' ∧ revision = revision' ∧ spec = spec' ∧
      request.commandId = request'.commandId ∧ request.recordId = request'.recordId ∧
      request.inputs = request'.inputs := by
  have houter := Json.fields_eq_of_sortKeys_eq h rfl (by simp)
  simp only [List.map_cons, Option.map_some, List.cons.injEq, Option.some.injEq] at houter
  obtain ⟨hidentity, hrevision, hintent, -⟩ := houter
  have hinner := Json.fields_eq_of_sortKeys_eq hintent rfl (by simp)
  simp only [List.map_cons, Option.map_some, List.cons.injEq, Option.some.injEq] at hinner
  obtain ⟨hspec, hcommand, hrecord, hinputs, -⟩ := hinner
  exact ⟨Json.str.inj hidentity, ofU64_injective hrevision, RawAppSpec.eq_of_sortKeys_eq hspec,
    Identity.eq_of_sortKeys_eq hcommand, Identity.eq_of_sortKeys_eq hrecord,
    eq_of_sortKeys_valuesToJson_eq hinputs⟩

/-- Two prepared commands have the same identity exactly when they ask for the same: of the same
definition under the same name, at the same revision, the same command on the same record with the
same inputs. -/
theorem identity_injective (store : Store) (host host' : SessionVerifier) (caller caller' : Caller)
    (spec spec' : CheckedAppSpec) (facts facts' : CheckedRecords)
    (request request' : RawCommandRequest) (prepared prepared' : PreparedCommand)
    (hprepared : prepareCommand host caller spec.definition facts request = .ok prepared)
    (hprepared' : prepareCommand host' caller' spec'.definition facts' request' = .ok prepared')
    (snapshot snapshot' : Snapshot) (revision revision' : U64) (bytes bytes' : List UInt8)
    (hbytes : store.normalizedIdentity snapshot revision prepared.intentBytes = .ok bytes)
    (hbytes' : store.normalizedIdentity snapshot' revision' prepared'.intentBytes = .ok bytes') :
    bytes = bytes' ↔ snapshot.specIdentity = snapshot'.specIdentity ∧ revision = revision' ∧
      spec.definition = spec'.definition ∧ request.commandId = request'.commandId ∧
      request.recordId = request'.recordId ∧ request.inputs = request'.inputs := by
  have hfor := prepareCommand_eq_ok_iff.1 hprepared
  have hfor' := prepareCommand_eq_ok_iff.1 hprepared'
  rw [hfor.intent_eq, Store.normalizedIdentity_eq hfor.requested.intent,
    Store.encode_eq_ok] at hbytes
  rw [hfor'.intent_eq, Store.normalizedIdentity_eq hfor'.requested.intent,
    Store.encode_eq_ok] at hbytes'
  rw [hbytes.2, hbytes'.2]
  constructor
  · intro heq
    exact eq_of_identityJson_eq
      (Json.print_injective (exact_identityJson _ _ _ _) (exact_identityJson _ _ _ _) heq)
  · rintro ⟨hidentity, rfl, hspec, hcommand, hrecord, hinputs⟩
    rw [identityJson, identityJson, intentJson, intentJson, hidentity, hspec, hcommand, hrecord,
      hinputs]

def ticketDigest : String := "2d49f1c2fc5107906f798afe3db83ae841cb9d6b5f4f52817d93656764c28a3d"

/-- A store of the tickets, with the SHA-256 digests of the text of their definition, which has 866
bytes, and of the text of the definition under another name, which has 872. -/
def digestStore : Store where
  tenantId := ticketScope.tenantId
  reader := compactReader
  digest bytes :=
    if bytes.length = 866 then ticketDigest
    else "4a54787e8cea957a0a73d88c2967ca2cf4f96691f2c851f5636b5e9565c45e68"

def ticketSnapshot : Snapshot :=
  ⟨ticketDefinition, ticketFacts, U64.one, "sha256:" ++ ticketDigest⟩

/-- The key of a request is not part of its identity. -/
theorem identity_injective_ticket : ∃ prepared prepared' bytes bytes',
    prepareCommand (ticketHost ticketActor) ticketCaller ticketDefinition ticketFacts closeTicket =
      .ok prepared ∧
    prepareCommand (ticketHost ticketActor) ticketCaller ticketDefinition ticketFacts
      { closeTicket with idempotencyKey := "again" } = .ok prepared' ∧
    digestStore.normalizedIdentity ticketSnapshot U64.one prepared.intentBytes = .ok bytes ∧
    digestStore.normalizedIdentity ticketSnapshot U64.one prepared'.intentBytes = .ok bytes' ∧
    bytes = bytes' := by
  obtain ⟨prepared, hprepared⟩ := exists_eq_ok (x := prepareCommand (ticketHost ticketActor)
    ticketCaller ticketDefinition ticketFacts closeTicket) (by decide +kernel)
  obtain ⟨prepared', hprepared'⟩ := exists_eq_ok (x := prepareCommand (ticketHost ticketActor)
    ticketCaller ticketDefinition ticketFacts { closeTicket with idempotencyKey := "again" })
    (by decide +kernel)
  have hbytes : ∀ {request prepared}, prepareCommand (ticketHost ticketActor) ticketCaller
      ticketDefinition ticketFacts request = .ok prepared →
      (identityJson ticketSnapshot.specIdentity U64.one ticketDefinition request).print.length ≤
        maxBytes →
      ∃ bytes, digestStore.normalizedIdentity ticketSnapshot U64.one prepared.intentBytes =
        .ok bytes := by
    intro request prepared hprepared hlength
    have hfor := prepareCommand_eq_ok_iff.1 hprepared
    refine ⟨(identityJson ticketSnapshot.specIdentity U64.one ticketDefinition request).print, ?_⟩
    rw [hfor.intent_eq, Store.normalizedIdentity_eq hfor.requested.intent]
    exact Store.encode_eq_ok.2 ⟨hlength, rfl⟩
  obtain ⟨bytes, hbytes₁⟩ := hbytes hprepared (by decide +kernel)
  obtain ⟨bytes', hbytes₂⟩ := hbytes hprepared' (by decide +kernel)
  exact ⟨prepared, prepared', bytes, bytes', hprepared, hprepared', hbytes₁, hbytes₂,
    (identity_injective _ _ _ _ _ ticketSpec ticketSpec _ _ _ _ _ _ hprepared hprepared' _ _ _ _ _ _
      hbytes₁ hbytes₂).2 ⟨rfl, rfl, rfl, rfl, rfl, rfl⟩⟩

end Evobase
