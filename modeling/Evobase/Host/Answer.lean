import Evobase.AppSpec.LongDefinition
import Evobase.Host.Shown
import Evobase.Store.Repeat

/-!
# Reads that are answered

The store and the wire have their own limits. What the store accepts is enough for a response to
be built and to pass its own check; the bytes and the nodes of a message are checked once more, on
the text that is sent.

A response can be too large for the wire although every record of it is valid. `FitsWire` is the
condition on the sizes alone; the checks of the fields, of the revision and of the identifiers are
met by everything that the store accepts (`reads_answered`).
-/

namespace Evobase

open Foundation

theorem SessionVerifier.resolve_or_missing {host : SessionVerifier} {caller : Caller}
    {grant : Grant} {context : TrustedContext} (h : host.resolve caller grant = .ok context)
    (other : Grant) :
    host.resolve caller other = .ok context ∨
      host.resolve caller other = .error .missingGrant := by
  obtain ⟨session, membership, binding, hfacts, hgrants, rfl⟩ := resolve_eq_ok.1 h
  by_cases hmem : other ∈ membership.grants
  · exact .inl (resolve_eq_ok.2 ⟨session, membership, binding, hfacts,
      { hgrants with granted := hmem }, rfl⟩)
  · right
    rw [resolve, rejectIf_bind_of_not hgrants.presented, hfacts, ok_bind]
    dsimp only
    rw [rejectIf_bind_of_not (by simp [hgrants.unrevoked]),
      rejectIf_bind_of_not (not_le.2 hgrants.unexpired),
      rejectIf_bind_of_not (by simp [hgrants.sameActor, hgrants.memberScope]),
      rejectIf_bind_of_not (by simp [hgrants.active, hgrants.revision]), rejectIf, if_pos hmem]
    rfl

theorem exists_foldlM {ε α β : Type} {f : β → α → Except ε β} {l : List α}
    (h : ∀ b, ∀ a ∈ l, ∃ next, f b a = .ok next) (b : β) : ∃ out, l.foldlM f b = .ok out := by
  induction l generalizing b with
  | nil => exact ⟨b, rfl⟩
  | cons a rest ih =>
      obtain ⟨next, hnext⟩ := h b a List.mem_cons_self
      obtain ⟨out, hout⟩ := ih (fun b a ha => h b a (List.mem_cons_of_mem _ ha)) next
      exact ⟨out, by rw [List.foldlM_cons, hnext, ok_bind, hout]⟩

section Menu

variable {readHost host : SessionVerifier} {caller : Caller} {spec : RawAppSpec}
  {facts : CheckedRecords} {context : TrustedContext}

theorem exists_eligibleRecords (hspec : WellFormed spec) (hfacts : facts.ValidFor spec)
    {command : RawCommand} (hcommand : command ∈ spec.commands)
    (readContext context : TrustedContext) :
    ∃ ids, eligibleRecords readContext context facts.scope spec facts command = .ok ids := by
  obtain ⟨machine, rule, haccepted⟩ := hspec.declarations.commands command hcommand
  obtain ⟨records, hrecords⟩ := hfacts
  have hvalid := validateRecords_records hspec hrecords
  have happ := ((validateRecords_eq_ok_iff hspec).1 hvalid).1.app
  simp only [eligibleRecords, bind_eq_ok, Exec.expect_eq_ok, Exec.ofExcept_eq_ok, Exec.lift_eq_ok,
    OwnerRolePolicy.check_eq_ok_iff, checkScope_eq_ok_iff]
  exact ⟨_, machine, haccepted.hasMachine, rule, haccepted.hasPolicy, _,
    ⟨hspec.policies rule (RawAppSpec.policy_some haccepted.hasPolicy).1, rfl⟩, (),
    ⟨happ, trivial, facts, hvalid⟩, rfl⟩

/-- The menu of a caller who may read and write in one context, with records that can be counted. -/
theorem exists_availableCommandRecords (hspec : WellFormed spec) (hfacts : facts.ValidFor spec)
    (hscope : facts.scope = caller.scope) (hread : readHost.resolve caller .read = .ok context)
    (hwrite : host.resolve caller .write = .ok context) :
    ∃ out, availableCommandRecords readHost host caller spec facts = .ok out ∧
      HostState.OffersRecords spec out := by
  have hvalid := ((validFor_iff hspec).1 hfacts).1
  obtain ⟨out, hout⟩ : ∃ out, availableCommandRecords readHost host caller spec facts = .ok out := by
    simp only [availableCommandRecords, hread, hwrite, Exec.ofExcept, ok_bind]
    rw [rejectIf_bind_of_not (not_not.2 rfl), rejectIf_bind_of_not (by
      simp [hscope, ← hvalid.app])]
    refine exists_foldlM (fun available command hcommand => ?_) []
    obtain ⟨ids, hids⟩ := exists_eligibleRecords hspec hfacts hcommand context context
    exact ⟨_, by rw [← hscope, hids]; rfl⟩
  obtain ⟨context', offers, -, -, -, -, hoffers, hfilter⟩ := of_availableCommandRecords hout
  refine ⟨out, hout, ?_, fun entry hentry => ?_⟩
  · have hkept := (List.filter_sublist (p := fun entry => decide (entry.2 ≠ []))
      (l := spec.commands.zip offers)).map Prod.fst
    rw [List.map_fst_zip hoffers.length_eq.le, ← hfilter] at hkept
    exact hkept
  · rw [hfilter] at hentry
    obtain ⟨-, hnodup, -, hstored⟩ := of_mem_menu hspec hfacts hoffers hentry
    refine ⟨?_, hnodup⟩
    have hsubset : entry.2 ⊆ facts.records.map (·.id) := by
      intro id hid
      obtain ⟨-, -, row, hrow, -, rfl⟩ := hstored id hid
      exact List.mem_map_of_mem hrow
    have hlength := (hnodup.subperm hsubset).length_le
    rw [List.length_map] at hlength
    exact hlength.trans hvalid.count

end Menu

namespace HostState

def jsonBytes (bytes : List UInt8) : Except ApiFailure (List UInt8) := do
  rejectIf (bytes.length > maxResponseBytes) .unsupported
  .ok bytes

/-- What a handler sends for the response that it builds. -/
def send {α : Type} [WireMessage α] (response : Exec ApiFailure α) :
    Exec ApiFailure (List UInt8) := do
  let response ← response
  let bytes ← Exec.ofExcept (fun _ => .internal) (Wire.encode response)
  Exec.ofExcept id (jsonBytes bytes)

/-- The text of a message fits the bytes and the nodes of the wire. -/
structure FitsWire {α : Type} [WireMessage α] (x : α) : Prop where
  bytes : (WireMessage.write x).print.length ≤ maxWireBytes
  nodes : (WireMessage.write x).nodes ≤ maxWireNodes

/-- The response is built, passes its own checks and is not too deep. It is sent when its text
fits, and otherwise the host reports an error of its own. -/
structure AnsweredAs {α : Type} [WireMessage α] (handler : Exec ApiFailure α) (response : α) :
    Prop where
  built : handler = .ok response
  valid : WireMessage.validate response = .ok ()
  depth : (WireMessage.write response).depth ≤ maxWireDepth
  sent : FitsWire response → send handler = .ok (WireMessage.write response).print
  refused : ¬ FitsWire response → send handler = .error (.fail .internal)

section Replies

variable {α : Type} [WireMessage α] {handler : Exec ApiFailure α} {response : α}

/-- A response within the depth is sent exactly when it fits. -/
theorem answeredAs (hbuilt : handler = .ok response)
    (hversion : WireMessage.apiVersion response = apiVersionNumber)
    (hvalid : WireMessage.validate response = .ok ())
    (hdepth : (WireMessage.write response).depth ≤ maxWireDepth) : AnsweredAs handler response := by
  have hencode : ∀ bytes, Wire.encode response = .ok bytes ↔
      FitsWire response ∧ bytes = (WireMessage.write response).print := by
    intro bytes
    have hpreflight := preflight_print_iff (WireMessage.exact_write response)
    rw [Wire.encode_eq_ok, Wire.preflight_eq, renameError_eq_ok]
    constructor
    · rintro ⟨-, hpre, rfl⟩
      obtain ⟨hbytes, -, hnodes⟩ := hpreflight.1 hpre
      exact ⟨⟨hbytes, hnodes⟩, rfl⟩
    · rintro ⟨⟨hbytes, hnodes⟩, rfl⟩
      exact ⟨⟨hversion, hvalid⟩, hpreflight.2 ⟨hbytes, hdepth, hnodes⟩, rfl⟩
  refine ⟨hbuilt, hvalid, hdepth, fun hfits => ?_, fun hfits => ?_⟩
  · have hbytes : jsonBytes (WireMessage.write response).print =
        .ok (WireMessage.write response).print := by
      have hsize : ¬ (WireMessage.write response).print.length > maxResponseBytes :=
        not_lt.2 hfits.bytes
      rw [jsonBytes, rejectIf_bind_of_not hsize]
    rw [send, hbuilt, ok_bind, (hencode _).2 ⟨hfits, rfl⟩]
    simp only [Exec.ofExcept, ok_bind, hbytes]
  · cases herror : Wire.encode response with
    | ok bytes => exact absurd ((hencode bytes).1 herror).1 hfits
    | error e =>
        rw [send, hbuilt, ok_bind, herror]
        rfl

end Replies

/-- What a snapshot of the host has been checked for. -/
structure Served (host : HostState) (snapshot : Snapshot) : Prop where
  wellFormed : WellFormed snapshot.spec
  small : SmallSpec snapshot.spec
  facts : snapshot.facts.ValidFor snapshot.spec
  scope : snapshot.facts.scope = host.scope
  identity : Wire.releaseId snapshot.specIdentity = .ok ()

theorem releaseId_of_digest {digest : String} (h : isLowerHexText digest = true) :
    Wire.releaseId ("sha256:" ++ digest) = .ok () := by
  simp only [isLowerHexText, Bool.and_eq_true, decide_eq_true_eq, List.all_eq_true] at h
  obtain ⟨hsize, hhex⟩ := h
  have hseven : "sha256:".utf8ByteSize = 7 := by decide +kernel
  have hplain : ("sha256:" ++ digest).toList.all (Wire.isWordChar ['_', '-', ':']) = true := by
    rw [String.toList_append, List.all_append, Bool.and_eq_true, List.all_eq_true (l := digest.toList)]
    refine ⟨by decide +kernel, fun c hc => ?_⟩
    have hc := hhex c hc
    simp only [isLowerHex, Bool.or_eq_true, Bool.and_eq_true, decide_eq_true_eq] at hc
    rw [Wire.isWordChar, Bool.or_eq_true]
    rcases hc with hdigit | ⟨hlow, hhigh⟩
    · exact .inl (by rw [Char.isAlphanum, hdigit, Bool.or_true])
    · have hlow : 97 ≤ c.toNat := UInt32.le_iff_toNat_le.1 hlow
      have hhigh : c.toNat ≤ 102 := UInt32.le_iff_toNat_le.1 hhigh
      exact .inl (Text.isAlphanum_iff.2 (by omega))
  simp only [Wire.releaseId, rejectIf_eq_ok, not_or, gt_iff_lt, not_lt, Bool.not_eq_false]
  refine ⟨?_, ?_, hplain⟩
  · intro hempty
    have hzero := congrArg String.utf8ByteSize hempty
    rw [String.utf8ByteSize_append, hseven] at hzero
    simp at hzero
  · rw [String.utf8ByteSize_append, hseven, hsize]
    decide

variable {host : HostState} {backend : Backend} {tables : Tables} {snapshot : Snapshot}
  {caller : Caller} {moments : Moments} {access : PilotAccess} {context : TrustedContext}

theorem served_of_snapshot (hdigest : ∀ bytes, isLowerHexText (host.store.digest bytes) = true)
    (h : host.snapshot backend tables = .ok snapshot) : host.Served snapshot := by
  simp only [HostState.snapshot, Store.read, bind_eq_ok, Exec.lift_eq_ok, rejectIf_eq_ok,
    Except.ok.injEq] at h
  obtain ⟨loaded, ⟨-, -, -, -, hload⟩, -, -, rfl⟩ := h
  obtain ⟨application, release, -, hrows⟩ := load_eq_ok_iff.1 hload
  obtain ⟨-, -, hdefinition⟩ := bind_eq_ok.1 (show decode host.store.reader release.specJson = _
    from hrows.definition)
  obtain ⟨raw, -, hcompile⟩ := bind_eq_ok.1 hdefinition
  have hscope := hrows.scope_eq
  refine ⟨hrows.wellFormed, smallSpec ⟨loaded.spec, raw, hcompile⟩, ?_, hscope, ?_⟩
  · obtain ⟨records, hrecords⟩ := validated_of_decodeRecords hrows.facts
    exact ⟨records, hscope ▸ hrecords⟩
  · rw [hrows.identity, ← hrows.filed]
    exact releaseId_of_digest (hdigest _)

/-- The caller has the grant in one context, from the first answer of an operation to its last. -/
structure HoldsGrant (host : HostState) (caller : Caller) (grant : Grant) (moments : Moments)
    (access : PilotAccess) (context : TrustedContext) : Prop where
  current : (moments 0).current = .ok access
  pinned : ∀ i, (host.verifier.pinned access (moments i)).resolve caller grant = .ok context
  asked : ∀ i, (host.verifier.asked (moments i)).resolve caller grant = .ok context

section Build

variable {design : Bool}

theorem exists_project (hserved : host.Served snapshot) (hcaller : caller.scope = host.scope)
    {verifier : SessionVerifier} (hread : verifier.resolve caller .read = .ok context)
    (rule : RawOwnerRolePolicy) (purpose : ProjectionPurpose) :
    ∃ projection, project verifier caller snapshot.facts ⟨snapshot.spec, rule⟩ purpose =
        .ok projection ∧
      projection.rows = OwnerRolePolicy.visibleRows ⟨snapshot.spec, rule⟩ context snapshot.facts := by
  obtain ⟨records, hrecords⟩ := hserved.facts
  have hvalid := validateRecords_records hserved.wellFormed hrecords
  have happ := ((validateRecords_eq_ok_iff hserved.wellFormed).1 hvalid).1.app
  have hscope : snapshot.facts.scope = caller.scope := hserved.scope.trans hcaller.symm
  have hcheck : OwnerRolePolicy.checkScope ⟨snapshot.spec, rule⟩ caller.scope snapshot.facts =
      .ok () :=
    checkScope_eq_ok_iff.2 ⟨hscope ▸ happ, hscope, snapshot.facts, hscope ▸ hvalid⟩
  refine ⟨⟨OwnerRolePolicy.visibleRows ⟨snapshot.spec, rule⟩ context snapshot.facts, purpose,
    context.membershipRevision, rule.revision⟩, ?_, rfl⟩
  rw [project, hread, hcheck]
  rfl

theorem exists_showTable (hserved : host.Served snapshot) (hcaller : caller.scope = host.scope)
    {moment : Moment} (hread : design = false →
      (host.verifier.pinned access moment).resolve caller .read = .ok context) (table : RawTable) :
    ∃ shown, host.showTable snapshot design caller access table moment = .ok shown ∧
      (shown = none ∨ shown = some (shownTable snapshot.spec design table)) := by
  unfold showTable
  cases design with
  | true => exact ⟨_, rfl, .inr rfl⟩
  | false =>
      simp only [Bool.false_eq_true, if_false]
      cases hrule : snapshot.spec.policies.find? fun policy => policy.tableId = table.id with
      | none => exact ⟨none, rfl, .inl rfl⟩
      | some rule =>
          have haccepted := hserved.wellFormed.policies rule (List.mem_of_find?_eq_some hrule)
          obtain ⟨projection, hproject, -⟩ := exists_project hserved hcaller (hread rfl) rule .query
          simp only [OwnerRolePolicy.check_eq_ok_iff.2 ⟨haccepted, rfl⟩, hproject, Exec.ofExcept,
            Exec.lift, ok_bind]
          refine ⟨_, rfl, ?_⟩
          split_ifs
          · exact .inl rfl
          · exact .inr (by rw [shownTable, hrule])

theorem exists_shownTables (hserved : host.Served snapshot) (hcaller : caller.scope = host.scope)
    (hread : design = false → ∀ i,
      (host.verifier.pinned access (moments i)).resolve caller .read = .ok context) :
    ∃ (shown : List (Option TableMetadataDto)) (kept : List RawTable),
      (snapshot.spec.tables.zipIdx.mapM fun table =>
        host.showTable snapshot design caller access table.1 (moments (table.2 + 6))) = .ok shown ∧
      kept.Sublist snapshot.spec.tables ∧
      shown.reduceOption = kept.map (shownTable snapshot.spec design) := by
  obtain ⟨shown, hshown⟩ := exists_forall₂ (l := snapshot.spec.tables.zipIdx) fun table _ =>
    exists_showTable hserved hcaller (fun h => hread h (table.2 + 6)) table.1
  obtain ⟨kept, hkept, heq⟩ := exists_kept (hshown.imp fun _ _ h => h.2)
  refine ⟨shown, kept.map Prod.fst, mapM_eq_ok_iff.2 (hshown.imp fun _ _ h => h.1), ?_, ?_⟩
  · have hfst := hkept.map Prod.fst
    rwa [List.zipIdx_map_fst] at hfst
  · rw [heq, List.map_map]
    rfl

theorem exists_declarations (hserved : host.Served snapshot) (hcaller : caller.scope = host.scope)
    (reading writing : Moment) (hread : design = false →
      (host.verifier.pinned access reading).resolve caller .read = .ok context ∧
      (host.verifier.pinned access writing).resolve caller .read = .ok context) :
    ∃ declared, host.declarations snapshot design caller access reading writing = .ok declared ∧
      OffersRecords snapshot.spec declared := by
  unfold declarations
  cases design with
  | true =>
      refine ⟨_, rfl, ?_, fun entry hentry => ?_⟩
      · have hsame : (snapshot.spec.commands.map fun command => (command, ([] : List RecordId))).map
            (·.1) = snapshot.spec.commands := by
          rw [List.map_map]
          exact List.map_id _
        rw [hsame]
      · obtain ⟨command, -, rfl⟩ := List.mem_map.1 hentry
        exact ⟨Nat.zero_le _, List.nodup_nil⟩
  | false =>
      obtain ⟨hreading, hwriting⟩ := hread rfl
      simp only [Bool.false_eq_true, if_false]
      rcases SessionVerifier.resolve_or_missing hwriting .write with hwrite | hmissing
      · obtain ⟨out, hout, hoffers⟩ := exists_availableCommandRecords hserved.wellFormed
          hserved.facts (hserved.scope.trans hcaller.symm) hreading hwrite
        rw [hout]
        exact ⟨out, rfl, hoffers⟩
      · have hnone : availableCommandRecords (host.verifier.pinned access reading)
            (host.verifier.pinned access writing) caller snapshot.spec snapshot.facts =
            .error (.fail (.authority .missingGrant)) := by
          rw [availableCommandRecords, hreading, hmissing]
          rfl
        rw [hnone]
        exact ⟨[], rfl, List.nil_sublist _, by simp⟩

theorem exists_releaseCommands {moment : Moment} (hread : design = false →
      (host.verifier.asked moment).resolve caller .read = .ok context)
    (commands : List CommandMetadataDto) :
    ∃ released, host.releaseCommands design caller context commands moment = .ok released ∧
      (released = commands ∨ released = []) := by
  unfold releaseCommands
  by_cases hnow : design = true ∨ commands = []
  · rw [if_pos hnow]
    exact ⟨commands, rfl, .inl rfl⟩
  · rw [if_neg hnow]
    rw [not_or, Bool.not_eq_true] at hnow
    rcases SessionVerifier.resolve_or_missing (hread hnow.1) .write with hwrite | hmissing
    · rw [hwrite]
      exact ⟨commands, by simp [rejectIf], .inl rfl⟩
    · rw [hmissing]
      exact ⟨[], rfl, .inr rfl⟩

theorem exists_canonicalAppspec (hspec : WellFormed snapshot.spec) (design : Bool) :
    canonicalAppspec snapshot.spec design =
      .ok (if design then some snapshot.spec.toJson.text else none) := by
  have hencode := (boundedEncode_eq_ok_iff (RawAppSpec.exact_toJson snapshot.spec)).2
    ⟨hspec.fits, rfl⟩
  cases design with
  | false => rfl
  | true =>
      simp only [canonicalAppspec, if_true, hencode, renameError, ok_bind, Json.stringOfBytes_print,
        okOr]

abbrev metadataGrant (design : Bool) : Grant := if design then .design else .read

theorem exists_metadataResponse (hserved : host.Served snapshot)
    (hcaller : caller.scope = host.scope)
    (hgrant : host.HoldsGrant caller (metadataGrant design) moments access context) :
    ∃ response, AnsweredAs (host.metadataResponse snapshot design caller moments) response := by
  have hread : design = false → ∀ i,
      (host.verifier.pinned access (moments i)).resolve caller .read = .ok context := by
    rintro rfl i
    exact hgrant.pinned i
  have hasked : design = false → (host.verifier.asked (moments 5)).resolve caller .read =
      .ok context := by
    rintro rfl
    exact hgrant.asked 5
  obtain ⟨shown, kept, hshown, hkept, htables⟩ := exists_shownTables hserved hcaller hread
  obtain ⟨declared, hdeclared, hoffers⟩ := exists_declarations hserved hcaller
    (moments 2) (moments 3) fun h => ⟨hread h 2, hread h 3⟩
  let commands := declared.filterMap fun command =>
    commandMetadata snapshot.spec shown.reduceOption command.1 command.2
  obtain ⟨released, hreleased, hall⟩ := exists_releaseCommands hasked commands
  have hcanonical := exists_canonicalAppspec hserved.wellFormed design
  have hnames : ∀ table ∈ shown.reduceOption, ∀ field ∈ table.fields, DisplayName field.name := by
    rw [htables]
    rintro _ htable
    obtain ⟨raw, hraw, rfl⟩ := List.mem_map.1 htable
    exact (goodFields_shownTable hserved.wellFormed hserved.small (hkept.subset hraw)).names
  have hcommands : released.length ≤ 64 ∧ eachAfter Wire.command [] released = .ok () := by
    rcases hall with rfl | rfl
    · exact eachAfter_shownCommands hserved.wellFormed hserved.small hnames hoffers rfl
    · exact ⟨Nat.zero_le _, rfl⟩
  let response : MetadataResponseDto := ⟨apiVersionNumber, host.scope.appId, snapshot.specIdentity,
    ⟨snapshot.revision⟩, if design then some snapshot.spec.toJson.text else none, supported,
    shown.reduceOption, released⟩
  refine ⟨response, answeredAs ?_ rfl ?_ (response.neat_toJson.depth.trans (by decide))⟩
  · simp only [metadataResponse, bind_eq_ok, Exec.ofExcept_eq_ok, rejectIf_eq_ok, ne_eq, not_not]
    exact ⟨access, hgrant.current, context, hgrant.pinned 1, shown, hshown, declared, hdeclared,
      context, hgrant.asked 4, (), rfl, released, hreleased, _, hcanonical, rfl⟩
  · have hsupported : each (fun capability =>
        Wire.limit capability.utf8ByteSize 256 "capability bytes") supported = .ok () := by
      decide +kernel
    have hcount : supported.length ≤ 64 := by decide
    show response.validate = .ok ()
    simp only [MetadataResponseDto.validate, Wire.limit, bind_eq_ok, rejectIf_eq_ok, gt_iff_lt,
      not_lt]
    refine ⟨(), hserved.identity, (), ?_, (), hcommands.1, (), hcount, (), hsupported, (), ?_, (),
      ?_, hcommands.2⟩
    · show shown.reduceOption.length ≤ maxTables
      rw [htables, List.length_map]
      exact hkept.length_le.trans hserved.small.tables_le
    · show eachAfter Wire.table [] shown.reduceOption = .ok ()
      rw [htables]
      exact eachAfter_shownTables hserved.wellFormed hserved.small hkept
    · show (shown.reduceOption.map fun table => table.fields.length).sum ≤ maxFields
      rw [htables]
      exact (sum_fields_shownTables_le hkept).trans hserved.small.fields_le

theorem exists_listOf (hserved : host.Served snapshot) (hcaller : caller.scope = host.scope)
    (hgrant : host.HoldsGrant caller .read moments access context) {table : TableId}
    (hpolicy : ∃ rule ∈ snapshot.spec.policies, rule.tableId = table) {limit : Nat}
    (hlimit : limit ≤ maxListLimit) :
    ∃ response, AnsweredAs (host.listOf snapshot caller table limit moments) response ∧
      response.toJson.nodes ≤ maxWireNodes := by
  obtain ⟨rule, hfind⟩ : ∃ rule, (snapshot.spec.policies.find? fun policy =>
      policy.tableId = table) = some rule := by
    obtain ⟨rule, hrule, htable⟩ := hpolicy
    exact Option.isSome_iff_exists.1 (List.find?_isSome.2 ⟨rule, hrule, by simpa using htable⟩)
  have haccepted := hserved.wellFormed.policies rule (List.mem_of_find?_eq_some hfind)
  obtain ⟨projection, hproject, hrows⟩ :=
    exists_project hserved hcaller (hgrant.pinned 2) rule .query
  obtain ⟨response, hresponse, hversion, hvalid, hnodes⟩ := exists_listResponse table
    hserved.wellFormed hserved.facts hserved.scope hserved.identity hlimit hrows
  refine ⟨response, answeredAs ?_ hversion hvalid (response.neat_toJson.depth.trans (by decide)),
    hnodes⟩
  simp only [listOf, bind_eq_ok, okOr_eq_ok, Exec.ofExcept_eq_ok, Exec.lift_eq_ok, rejectIf_eq_ok,
    ne_eq, not_not]
  exact ⟨rule, hfind, _, OwnerRolePolicy.check_eq_ok_iff.2 ⟨haccepted, rfl⟩, access, hgrant.current,
    context, hgrant.pinned 1, projection, hproject, response, hresponse, context, hgrant.asked 3, (),
    rfl, rfl⟩

end Build

end HostState

/-- Authorized reads have an answer while it fits. For a snapshot of the store and a caller who
keeps the grant, the metadata for design, the metadata for a caller at work and the list of every
table with a policy are built, pass their own checks and are not too deep. They are sent exactly
when their text fits the bytes and the nodes of a message, and a list always fits the nodes; what
does not fit is reported as an error of the host. -/
theorem reads_answered (host : HostState) (backend : Backend) (tables : Tables)
    (snapshot : Snapshot) (hdigest : ∀ bytes, isLowerHexText (host.store.digest bytes) = true)
    (hsnapshot : host.snapshot backend tables = .ok snapshot) (caller : Caller)
    (hcaller : caller.scope = host.scope) (moments : Moments) (access : PilotAccess)
    (context : TrustedContext) :
    (host.HoldsGrant caller .design moments access context → ∃ response,
      HostState.AnsweredAs (host.metadataResponse snapshot true caller moments) response) ∧
    (host.HoldsGrant caller .read moments access context → ∃ response,
      HostState.AnsweredAs (host.metadataResponse snapshot false caller moments) response) ∧
    ∀ (table : TableId) (limit : Nat), 1 ≤ limit → limit ≤ maxListLimit →
      (∃ rule ∈ snapshot.spec.policies, rule.tableId = table) →
      host.HoldsGrant caller .read moments access context → ∃ response,
        HostState.AnsweredAs (host.listOf snapshot caller table limit moments) response ∧
          response.toJson.nodes ≤ maxWireNodes := by
  have hserved := HostState.served_of_snapshot hdigest hsnapshot
  exact ⟨fun hgrant => HostState.exists_metadataResponse hserved hcaller hgrant,
    fun hgrant => HostState.exists_metadataResponse hserved hcaller hgrant,
    fun table limit _ hlimit hpolicy hgrant =>
      HostState.exists_listOf hserved hcaller hgrant hpolicy hlimit⟩

/-- The tables of a store with one app, at its first revision. -/
def Store.firstRows (store : Store) (spec : CheckedAppSpec) (facts : CheckedRecords) : Tables where
  releases := [⟨spec.definition.appId, spec.identity store, spec.definition.toJson.print⟩]
  applications := [⟨spec.definition.appId, spec.identity store, I64.one,
    (recordsToJson facts.records).print⟩]
  receipts := []
  events := []
  audits := []

theorem Store.load_firstRows {store : Store} {spec : CheckedAppSpec} {scope : Scope}
    {facts : CheckedRecords} {records : List RawRecord}
    (h : validateRecords spec.definition scope records = .ok facts) :
    store.load (store.firstRows spec facts) scope =
      .ok ⟨spec.definition, facts, U64.one, spec.identity store⟩ := by
  have hspec := wellFormed spec
  have happ := ((validateRecords_eq_ok_iff hspec).1 h).1.app
  obtain ⟨specJson, hspecJson, hdecode⟩ := decode_encode store.reader spec
  obtain ⟨factsJson, hfactsJson, hfacts⟩ := decodeRecords_encode store.reader hspec h
  obtain rfl := ((boundedEncode_eq_ok_iff (RawAppSpec.exact_toJson _)).1 hspecJson).2
  obtain rfl := ((boundedEncode_eq_ok_iff (exact_recordsToJson _)).1 hfactsJson).2
  have hselect : Store.selectApplication (store.firstRows spec facts) scope.appId =
      some (⟨spec.definition.appId, spec.identity store, I64.one,
        (recordsToJson facts.records).print⟩,
        ⟨spec.definition.appId, spec.identity store, spec.definition.toJson.print⟩) := by
    rw [selectApplication_eq_some]
    exact ⟨by simp [firstRows, happ], by simp [firstRows, happ]⟩
  exact load_eq_ok_iff.2 ⟨_, _, hselect, {
    revision := rfl
    positive := one_ne_zero
    definition := hdecode
    filed := rfl
    specJson := hspecJson
    facts := hfacts
    factsJson := hfactsJson
    identity := rfl }⟩

def pilotDigest : String := "60e05bd1b195af2f94112fa7197a5c88289058840ce7c6df9693756bc6250f55"

def pilotAccess : PilotAccess where
  tokenSha256 := pilotDigest
  actorId := ticketActor.text
  expiresAt := sessionEnd
  revoked := false
  active := true
  membershipRevision := U64.one
  roles := []
  grants := [.design, .read, .write]

def pilotCaller : Caller where
  credential := "0000000000000000000000000000000000000000000000000000000000000000"
  scope := ticketScope
  channel := .nativeBearer
  now := U64.one

def pilotMoments : Moments := fun _ => ⟨.ok pilotAccess, some U64.one⟩

def pilotHost (store : Store) (releaseId : String) : HostState where
  store := store
  scope := ticketScope
  verifier := ⟨ticketScope, "store:t", [], fun _ => hexPairs pilotDigest.toList⟩
  releaseId := releaseId
  tokenizer := compactTokenizer

theorem pilot_holdsGrant (store : Store) (releaseId : String) {grant : Grant}
    (h : grant = .design ∨ grant = .read) :
    (pilotHost store releaseId).HoldsGrant pilotCaller grant pilotMoments pilotAccess
      ticketContext := by
  have hvalidate : pilotAccess.validate = .ok () := by decide +kernel
  have hcurrent : (pilotMoments 0).current = .ok pilotAccess := by
    simp [Moment.current, pilotMoments, hvalidate]
  have hresolve : ∀ i, ((pilotHost digestStore "").verifier.asked (pilotMoments i)).resolve
      pilotCaller grant = .ok ticketContext := by
    intro i
    rcases h with rfl | rfl
    · exact (by decide +kernel : ((pilotHost digestStore "").verifier.asked
        (pilotMoments 0)).resolve pilotCaller .design = .ok ticketContext)
    · exact (by decide +kernel : ((pilotHost digestStore "").verifier.asked
        (pilotMoments 0)).resolve pilotCaller .read = .ok ticketContext)
  exact ⟨hcurrent, hresolve, hresolve⟩

theorem pilot_snapshot (store : Store) {spec : CheckedAppSpec} {facts : CheckedRecords}
    {records : List RawRecord} (htenant : store.tenantId = ticketScope.tenantId)
    (h : validateRecords spec.definition ticketScope records = .ok facts) :
    (pilotHost store (spec.identity store)).snapshot (.up .applied) (store.firstRows spec facts) =
      .ok ⟨spec.definition, facts, U64.one, spec.identity store⟩ := by
  have hscope : store.checkScope ticketScope = .ok () := by
    rw [Store.checkScope, rejectIf_eq_ok, not_not, htenant]
  have hread : store.read (.up .applied) (store.firstRows spec facts) ticketScope =
      .ok ⟨spec.definition, facts, U64.one, spec.identity store⟩ := by
    rw [Store.read, hscope, ok_bind, rejectIf_bind_of_not (by decide), Store.load_firstRows h]
  simp only [HostState.snapshot, bind_eq_ok, Exec.lift_eq_ok, rejectIf_eq_ok, ne_eq, not_not]
  exact ⟨_, hread, (), rfl, rfl⟩

/-- The reads of the tickets are answered. -/
theorem reads_answered_tickets : ∃ snapshot response,
    (pilotHost digestStore (ticketSpec.identity digestStore)).snapshot (.up .applied)
      (digestStore.firstRows ticketSpec ticketFacts) = .ok snapshot ∧
    HostState.AnsweredAs ((pilotHost digestStore (ticketSpec.identity digestStore)).listOf snapshot
      pilotCaller ⟨"tbl_t", by decide⟩ 1 pilotMoments) response := by
  have hfacts : validateRecords ticketSpec.definition ticketScope ticketFacts.records =
      .ok ticketFacts := by decide +kernel
  have hdigest : ∀ bytes, isLowerHexText (digestStore.digest bytes) = true := by
    intro bytes
    rw [digestStore]
    dsimp only
    split_ifs <;> decide +kernel
  have hsnapshot := pilot_snapshot digestStore rfl hfacts
  obtain ⟨-, -, hlist⟩ := reads_answered _ _ _ _ hdigest hsnapshot pilotCaller rfl pilotMoments
    pilotAccess ticketContext
  obtain ⟨response, hanswered, -⟩ := hlist ⟨"tbl_t", by decide⟩ 1 (by decide) (by decide)
    ⟨ticketDefinition.policies.head (by decide), List.head_mem _, rfl⟩
    (pilot_holdsGrant _ _ (.inr rfl))
  exact ⟨_, response, hsnapshot, hanswered⟩

theorem canonicalAppspec_of_metadataResponse {host : HostState} {snapshot : Snapshot}
    {caller : Caller} {moments : Moments} {response : MetadataResponseDto}
    (hspec : WellFormed snapshot.spec)
    (h : host.metadataResponse snapshot true caller moments = .ok response) :
    response.canonicalAppspec = some snapshot.spec.toJson.text := by
  simp only [HostState.metadataResponse, bind_eq_ok, Exec.ofExcept_eq_ok, Except.ok.injEq] at h
  obtain ⟨-, -, -, -, -, -, -, -, -, -, -, -, -, -, canonical, hcanonical, rfl⟩ := h
  rw [HostState.exists_canonicalAppspec hspec] at hcanonical
  exact (Except.ok.inj hcanonical).symm

/-- The definition is a string in the metadata for design, so a definition that is almost as long
as a message leaves no room for the rest of them. -/
theorem not_fitsWire_of_full {host : HostState} {snapshot : Snapshot} {caller : Caller}
    {moments : Moments} {response : MetadataResponseDto} (hfull : snapshot.spec = fullDefinition)
    (h : host.metadataResponse snapshot true caller moments = .ok response) :
    ¬ HostState.FitsWire response := by
  have hspec : WellFormed snapshot.spec := hfull ▸ wellFormed fullSpec
  have hcanonical := canonicalAppspec_of_metadataResponse hspec h
  have htext : fullDefinition.toJson.text.utf8ByteSize = fullDefinition.toJson.print.length := by
    rw [← Json.length_utf8_toList, Json.utf8_text]
  obtain ⟨members, hobj, hmember⟩ : ∃ members, response.toJson = .obj members ∧
      ("canonical_appspec", Json.str fullDefinition.toJson.text) ∈ members := by
    refine ⟨_, rfl, ?_⟩
    simp [Json.present, hcanonical, hfull, Json.orNull]
  have hname : (Json.printString "canonical_appspec").length = 19 := by decide +kernel
  have hlength := Json.length_print_member_le hmember
  have hstring := Json.length_printString_ge fullDefinition.toJson.text
  have hlong := length_print_fullDefinition
  rw [hname, Json.print_str, ← hobj] at hlength
  rintro ⟨hbytes, -⟩
  have hbytes : response.toJson.print.length ≤ maxBytes := hbytes
  omega

/-- The store of the full definition, with the SHA-256 digest of its text. -/
def fullStore : Store where
  tenantId := ticketScope.tenantId
  reader := compactReader
  digest _ := "a185155b6467bdcbf1d541909d3625ef1f4b748565c73ffa05d98c130c1b59b4"

theorem validateRecords_nil (spec : CheckedAppSpec) {scope : Scope}
    (happ : scope.appId = spec.definition.appId) :
    validateRecords spec.definition scope [] = .ok ⟨scope, []⟩ := by
  have hfits : Fits (recordsToJson []) := ⟨by decide, by decide, by decide⟩
  exact (validateRecords_eq_ok_iff (wellFormed spec)).2
    ⟨⟨happ, Nat.zero_le _, hfits, List.nodup_nil, by simp, hfits⟩, rfl⟩

/-- The full definition is stored, but its metadata for design cannot be sent. -/
theorem not_reads_answered : ∃ (host : HostState) (backend : Backend) (tables : Tables)
    (snapshot : Snapshot) (caller : Caller) (moments : Moments) (access : PilotAccess)
    (context : TrustedContext),
    (∀ bytes, isLowerHexText (host.store.digest bytes) = true) ∧
    host.snapshot backend tables = .ok snapshot ∧ caller.scope = host.scope ∧
    host.HoldsGrant caller .design moments access context ∧
    HostState.send (host.metadataResponse snapshot true caller moments) =
      .error (.fail .internal) := by
  have hsnapshot := pilot_snapshot fullStore rfl (validateRecords_nil fullSpec rfl)
  have hgrant : (pilotHost fullStore (fullSpec.identity fullStore)).HoldsGrant pilotCaller
      (HostState.metadataGrant true) pilotMoments pilotAccess ticketContext :=
    pilot_holdsGrant _ _ (.inl rfl)
  have hdigest : ∀ bytes, isLowerHexText (fullStore.digest bytes) = true := by
    intro bytes
    exact (by decide +kernel : isLowerHexText (fullStore.digest []) = true)
  have hserved := HostState.served_of_snapshot hdigest hsnapshot
  obtain ⟨response, hanswered⟩ := HostState.exists_metadataResponse hserved rfl hgrant
  have hlong : ¬ HostState.FitsWire response :=
    not_fitsWire_of_full rfl hanswered.built
  exact ⟨_, _, _, _, pilotCaller, pilotMoments, pilotAccess, ticketContext, hdigest, hsnapshot, rfl,
    hgrant, hanswered.refused hlong⟩

end Evobase
