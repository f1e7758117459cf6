import Evobase.AppSpec.Available
import Evobase.AppSpec.LongDefinition
import Evobase.Store.Intent

/-!
# Room for the intent of a command

The intent of a request holds the whole definition, and the identity of a request holds the intent.
Both are measured against the limits that the definition alone has passed, so a command of a
definition close to them cannot be run. Without inputs the envelope has a known size: the command
can be prepared and named exactly when the definition leaves room for it (`neverLimited_iff`).
-/

namespace Evobase

open Foundation

section Sizes

variable {spec : RawAppSpec} {request : RawCommandRequest} {specIdentity : String} {revision : U64}

/-- The bytes of the definition and of what a request without inputs puts around it. -/
def identityBytes (spec : RawAppSpec) (request : RawCommandRequest) (specIdentity : String)
    (revision : U64) : Nat :=
  spec.toJson.print.length + request.commandId.text.utf8ByteSize +
    request.recordId.text.utf8ByteSize + (Json.printString specIdentity).length +
    (Json.ofU64 revision).print.length + 116

/-- The definition leaves room for the intent and the identity of a request without inputs. -/
structure LeavesRoom (spec : RawAppSpec) (request : RawCommandRequest) (specIdentity : String)
    (revision : U64) : Prop where
  nodes : spec.toJson.nodes + 8 ≤ maxNodes
  bytes : identityBytes spec request specIdentity revision ≤ maxBytes

theorem nodes_intentJson (hinputs : request.inputs = .empty) :
    (intentJson spec request).nodes = spec.toJson.nodes + 8 := by
  simp [intentJson, hinputs, Json.ofFields, Json.present, Json.nodes, Json.nodesMembers,
    valuesToJson, Json.ofMap, OrdMap.empty, Identity.toJson]
  omega

theorem neat_intentJson (spec : RawAppSpec) (request : RawCommandRequest) :
    (intentJson spec request).Neat 9 :=
  Json.neat_ofFields (by simp)
    (by simp [spec.neat_toJson, (neat_valuesToJson request.inputs).mono (show 4 ≤ 8 by decide)])

theorem length_print_intentJson (hinputs : request.inputs = .empty) :
    (intentJson spec request).print.length = spec.toJson.print.length +
      request.commandId.text.utf8ByteSize + request.recordId.text.utf8ByteSize + 58 := by
  have hnames : (Json.printString "definition").length = 12 ∧
      (Json.printString "command_id").length = 12 ∧ (Json.printString "record_id").length = 11 ∧
      (Json.printString "inputs").length = 8 := by
    decide +kernel
  obtain ⟨hdefinition, hcommand, hrecord, hinput⟩ := hnames
  have hempty : (valuesToJson (.empty : OrdMap FieldId Value)).print.length = 2 := rfl
  simp only [intentJson, Json.ofFields, Json.present, Json.length_print_obj, hinputs, hdefinition,
    hcommand, hrecord, hinput, hempty, List.map_cons, List.map_nil, List.sum_cons, List.sum_nil,
    List.length_cons, List.length_nil, request.commandId.length_print.1,
    request.recordId.length_print.1]
  omega

theorem length_print_identityJson (hinputs : request.inputs = .empty) :
    (identityJson specIdentity revision spec request).print.length =
      identityBytes spec request specIdentity revision := by
  have hnames : (Json.printString "spec_identity").length = 15 ∧
      (Json.printString "expected_revision").length = 19 ∧
      (Json.printString "semantic_intent").length = 17 := by
    decide +kernel
  obtain ⟨hidentity, hrevision, hintent⟩ := hnames
  have hunique : (Json.ofFields [("spec_identity", some (.str specIdentity)),
      ("expected_revision", some (.ofU64 revision)),
      ("semantic_intent", some (intentJson spec request))]).UniqueKeys :=
    Json.uniqueKeys_ofFields (by simp)
      (by simp [(neat_intentJson spec request).unique, (Json.neat_ofU64 0 revision).unique])
  rw [identityJson, Json.length_print_sortKeys _ hunique]
  simp only [Json.ofFields, Json.present, Json.length_print_obj, hidentity, hrevision, hintent,
    List.map_cons, List.map_nil, List.sum_cons, List.sum_nil, List.length_cons, List.length_nil,
    length_print_intentJson hinputs, Json.print_str, identityBytes]
  omega

/-- The intent fits when the nodes do and the identity is short enough: the identity is the longer
of the two. -/
theorem leavesRoom_iff (hinputs : request.inputs = .empty) :
    LeavesRoom spec request specIdentity revision ↔ Fits (intentJson spec request) ∧
      (identityJson specIdentity revision spec request).print.length ≤ maxBytes := by
  rw [length_print_identityJson hinputs]
  constructor
  · rintro ⟨hnodes, hbytes⟩
    refine ⟨⟨?_, ?_, ?_⟩, hbytes⟩
    · rw [length_print_intentJson hinputs]
      unfold identityBytes at hbytes
      omega
    · exact (neat_intentJson spec request).depth.trans (by decide)
    · rwa [nodes_intentJson hinputs]
  · rintro ⟨hfits, hbytes⟩
    refine ⟨?_, hbytes⟩
    rw [← nodes_intentJson hinputs]
    exact hfits.nodes

theorem fits_requestJson (hkey : boundedKey request.idempotencyKey = true)
    (hinputs : request.inputs = .empty) : Fits request.toJson := by
  simp only [boundedKey, Bool.and_eq_true, decide_eq_true_eq] at hkey
  obtain ⟨⟨-, hsize⟩, hplain⟩ := hkey
  have hnames : (Json.printString "command_id").length = 12 ∧
      (Json.printString "record_id").length = 11 ∧
      (Json.printString "idempotency_key").length = 17 ∧ (Json.printString "inputs").length = 8 := by
    decide +kernel
  obtain ⟨hcommand, hrecord, hidempotency, hinput⟩ := hnames
  have hempty : (valuesToJson (.empty : OrdMap FieldId Value)).print.length = 2 := rfl
  obtain ⟨hcommandId, hcommandSize⟩ := request.commandId.length_print
  obtain ⟨hrecordId, hrecordSize⟩ := request.recordId.length_print
  refine ⟨?_, ?_, ?_⟩
  · simp only [RawCommandRequest.toJson, Json.ofFields, Json.present, Json.length_print_obj, hinputs,
      hcommand, hrecord, hidempotency, hinput, hempty, List.map_cons, List.map_nil, List.sum_cons,
      List.sum_nil, List.length_cons, List.length_nil, hcommandId, hrecordId, Json.print_str,
      length_printString_of_idChars hplain, maxBytes]
    omega
  · have hneat : request.toJson.Neat 5 :=
      Json.neat_ofFields (by simp) (by simp [neat_valuesToJson request.inputs])
    exact hneat.depth.trans (by decide)
  · simp [RawCommandRequest.toJson, hinputs, Json.ofFields, Json.present, Json.nodes,
      Json.nodesMembers, valuesToJson, Json.ofMap, OrdMap.empty, Identity.toJson, maxNodes]

end Sizes

/-- The caller may run the command on the record, and no input of it is required. -/
structure MayRun (host : SessionVerifier) (caller : Caller) (spec : RawAppSpec)
    (facts : CheckedRecords) (command : RawCommand) (row : RawRecord) : Prop where
  valid : facts.ValidFor spec
  inScope : facts.scope = caller.scope
  declared : command ∈ spec.commands
  optional : ∀ input ∈ command.inputs, input.required = false
  stored : row ∈ facts.records
  allowed : ∃ context rule, host.resolve caller .write = .ok context ∧
    spec.policy command.policyRuleId = some rule ∧
      OwnerRolePolicy.allows ⟨spec, rule⟩ context row .write

section Run

variable {host : SessionVerifier} {caller : Caller} {spec : RawAppSpec} {facts : CheckedRecords}
  {command : RawCommand} {row : RawRecord} {request : RawCommandRequest}

/-- The request is authorized, so it fails at its key or at its intent only. -/
theorem MayRun.authorized (hspec : WellFormed spec)
    (h : MayRun host caller spec facts command row) (hfor : request.IsFor command row) :
    ∃ context machine policy,
      authorizeCommand host caller spec facts request.commandId request.recordId =
        .ok (context, command, machine, policy) := by
  obtain ⟨context, rule, hresolve, hpolicy, hallows⟩ := h.allowed
  obtain ⟨machine, rule', haccepted⟩ := hspec.declarations.commands command h.declared
  obtain rfl := Option.some.inj (hpolicy.symm.trans haccepted.hasPolicy)
  have hfacts := ((validFor_iff hspec).1 h.valid).1
  have happ : caller.scope.appId = spec.appId := h.inScope ▸ hfacts.app
  have hvalid : validateRecords spec caller.scope facts.records = .ok facts := by
    obtain ⟨records, hrecords⟩ := h.valid
    exact h.inScope ▸ validateRecords_records hspec hrecords
  have hfind : facts.find machine.tableId row.id = some row :=
    (find_eq_some_iff hfacts.keys).2 ⟨h.stored, hallows.2.1.trans haccepted.table, rfl⟩
  refine ⟨context, machine, ⟨spec, rule⟩, ?_⟩
  simp only [authorizeCommand, bind_eq_ok, Exec.ofExcept_eq_ok, rejectIf_eq_ok, okOr_eq_ok,
    Exec.expect_eq_ok, Exec.lift_eq_ok, checkScope_eq_ok_iff, OwnerRolePolicy.check_eq_ok_iff,
    not_or, not_not]
  exact ⟨context, hresolve, (), ⟨happ, h.inScope⟩, command,
    hfor.1 ▸ command_of_mem hspec h.declared, machine, haccepted.hasMachine, rule, hpolicy, _,
    ⟨hspec.policies rule (RawAppSpec.policy_some hpolicy).1, rfl⟩, (),
    ⟨happ, h.inScope, facts, hvalid⟩, row, hfor.2 ▸ hfind, (), hallows, rfl⟩

theorem checkRequest_of_badKey {machine : RawStateMachine}
    (hkey : boundedKey request.idempotencyKey = false) :
    checkRequest spec command machine request =
      .error (.fail (.invalidInput none "invalid bounded request key")) := by
  rw [checkRequest, rejectIf, if_pos hkey]
  rfl

theorem checkRequest_of_empty {machine : RawStateMachine}
    (hkey : boundedKey request.idempotencyKey = true) (hinputs : request.inputs = .empty)
    (hoptional : ∀ input ∈ command.inputs, input.required = false) :
    checkRequest spec command machine request =
      Exec.ofExcept .kernel (boundedEncode (intentJson spec request)) := by
  have hencode : boundedEncode request.toJson = .ok request.toJson.print :=
    (boundedEncode_eq_ok_iff request.exact_toJson).2 ⟨fits_requestJson hkey hinputs, rfl⟩
  have hentries : request.inputs.entries = [] := by rw [hinputs]; rfl
  have hrequired : rejectAny command.inputs
      (fun input => input.required = true ∧ request.inputs.get? input.fieldId = none)
      (fun input => (.fail (.invalidInput (some input.fieldId) "required input is absent") :
        Halt CommandError)) = .ok () := by
    rw [rejectAny_eq_ok]
    intro input hinput hrequired
    rw [hoptional input hinput] at hrequired
    exact absurd hrequired.1 (by decide)
  rw [checkRequest, rejectIf_bind_of_not (by simp [hkey]),
    rejectIf_bind_of_not (by simp [hentries]), hencode, hentries, hrequired]
  rfl

theorem prepareCommand_of_mayRun (hspec : WellFormed spec)
    (h : MayRun host caller spec facts command row) (hfor : request.IsFor command row)
    (hkey : boundedKey request.idempotencyKey = true) (hinputs : request.inputs = .empty) :
    ∃ prepared : List UInt8 → PreparedCommand, (∀ bytes, (prepared bytes).intentBytes = bytes) ∧
      prepareCommand host caller spec facts request =
        (do let bytes ← Exec.ofExcept .kernel (boundedEncode (intentJson spec request))
            .ok (prepared bytes)) := by
  obtain ⟨context, machine, policy, hauthorized⟩ := h.authorized hspec hfor
  refine ⟨fun bytes => ⟨spec, facts, context, policy, command, machine, request, bytes⟩,
    fun _ => rfl, ?_⟩
  rw [prepareCommand_eq, hauthorized, ok_bind, ← checkRequest_of_empty hkey hinputs h.optional]

/-- Neither the preparation nor the identity of the request fails at a limit. -/
def NeverLimited (store : Store) (host : SessionVerifier) (caller : Caller) (snapshot : Snapshot)
    (request : RawCommandRequest) (revision : U64) : Prop :=
  (∀ resource limit, prepareCommand host caller snapshot.spec snapshot.facts request ≠
      .error (.fail (.kernel (.limitExceeded resource limit)))) ∧
    ∀ prepared, prepareCommand host caller snapshot.spec snapshot.facts request = .ok prepared →
      store.normalizedIdentity snapshot revision prepared.intentBytes ≠ .error .payloadLimit

/-- A request without inputs, for a command and a record that the caller may run it on, fails at no
limit exactly when the definition leaves room for it, or when its key is refused before. -/
theorem neverLimited_iff (store : Store) (host : SessionVerifier) (caller : Caller)
    (snapshot : Snapshot) (spec : CheckedAppSpec) (hspec : snapshot.spec = spec.definition)
    (command : RawCommand) (row : RawRecord)
    (h : MayRun host caller snapshot.spec snapshot.facts command row)
    (request : RawCommandRequest) (hfor : request.IsFor command row)
    (hinputs : request.inputs = .empty) (revision : U64) :
    NeverLimited store host caller snapshot request revision ↔
      (boundedKey request.idempotencyKey = true →
        LeavesRoom snapshot.spec request snapshot.specIdentity revision) := by
  have hwellFormed : WellFormed snapshot.spec := hspec ▸ wellFormed spec
  rw [NeverLimited, leavesRoom_iff hinputs]
  cases hkey : boundedKey request.idempotencyKey with
  | false =>
      obtain ⟨context, machine, policy, hauthorized⟩ := h.authorized hwellFormed hfor
      simp [prepareCommand_eq, hauthorized, checkRequest_of_badKey hkey]
  | true =>
      obtain ⟨prepared, hbytes, hprepare⟩ := prepareCommand_of_mayRun hwellFormed h hfor hkey hinputs
      rw [hprepare]
      simp only [forall_const]
      by_cases hfits : Fits (intentJson snapshot.spec request)
      · have hencode : boundedEncode (intentJson snapshot.spec request) =
            .ok (intentJson snapshot.spec request).print :=
          (boundedEncode_eq_ok_iff (exact_intentJson _ _)).2 ⟨hfits, rfl⟩
        have hidentity : store.normalizedIdentity snapshot revision
            (intentJson snapshot.spec request).print = Store.encode
              (identityJson snapshot.specIdentity revision snapshot.spec request) :=
          Store.normalizedIdentity_eq hfits
        have hlimit : ∀ j : Json, Store.encode j ≠ .error .payloadLimit ↔
            j.print.length ≤ maxBytes := by
          intro j
          simp [Store.encode, bind_eq_error]
        simp [hencode, hfits, Exec.ofExcept, hbytes, hidentity, hlimit]
      · obtain ⟨resource, limit, herror⟩ : ∃ resource limit,
            boundedEncode (intentJson snapshot.spec request) =
              .error (.limitExceeded resource limit) := by
          cases hencode : boundedEncode (intentJson snapshot.spec request) with
          | ok bytes =>
              exact absurd ((boundedEncode_eq_ok_iff (exact_intentJson _ _)).1 hencode).1 hfits
          | error e =>
              have hlimit := isLimit_of_boundedEncode hencode
              cases e <;> simp [Error.isLimit] at hlimit
              exact ⟨_, _, rfl⟩
        simp [herror, hfits, Exec.ofExcept]

end Run

def closeBlank : RawCommandRequest := { closeTicket with inputs := .empty }

theorem mayRun_longDefinition (ids : List CommandId) (text : String) :
    MayRun (ticketHost ticketActor) ticketCaller (longDefinition ids text) ticketFacts
      (ticketDefinition.commands.head (by decide)) (openTicket ⟨"rec_a", by decide⟩ ticketActor.text)
      where
  valid := ⟨ticketFacts.records, (by decide +kernel :
    validateRecords ticketDefinition ticketFacts.scope ticketFacts.records = .ok ticketFacts)⟩
  inScope := rfl
  declared := List.mem_append_left _ (List.head_mem _)
  optional := by decide +kernel
  stored := List.mem_singleton.2 rfl
  allowed := by
    have hresolve : (ticketHost ticketActor).resolve ticketCaller .write = .ok ticketContext := by
      decide +kernel
    have hpolicy : ticketDefinition.policy "rule_t" =
        some (ticketDefinition.policies.head (by decide)) := by decide +kernel
    have hallows : OwnerRolePolicy.allows ⟨ticketDefinition, ticketDefinition.policies.head
        (by decide)⟩ ticketContext (openTicket ⟨"rec_a", by decide⟩ ticketActor.text) .write := by
      decide +kernel
    exact ⟨ticketContext, _, hresolve, hpolicy, hallows⟩

/-- The small definition leaves room. -/
theorem neverLimited_iff_ticket :
    NeverLimited digestStore (ticketHost ticketActor) ticketCaller ticketSnapshot closeBlank U64.one :=
  (neverLimited_iff _ _ _ ticketSnapshot ticketSpec rfl _ _ (mayRun_longDefinition [] "") closeBlank
    ⟨rfl, rfl⟩ rfl _).2
    fun _ => ⟨by decide +kernel, by decide +kernel⟩

/-- The full definition is stored and its ticket is open, but the intent of the command that closes
tickets is too long. -/
theorem not_neverLimited :
    compile fullDefinition = .ok fullDefinition ∧
    MayRun (ticketHost ticketActor) ticketCaller fullDefinition ticketFacts
      (ticketDefinition.commands.head (by decide))
      (openTicket ⟨"rec_a", by decide⟩ ticketActor.text) ∧
    checkTransition (ticketDefinition.commands.head (by decide))
      (ticketDefinition.stateMachines.head (by decide))
      (openTicket ⟨"rec_a", by decide⟩ ticketActor.text) = .ok () ∧
    prepareCommand (ticketHost ticketActor) ticketCaller fullDefinition ticketFacts closeBlank =
      .error (.fail (.kernel (.limitExceeded "bytes" maxBytes))) := by
  have hmay : MayRun (ticketHost ticketActor) ticketCaller fullDefinition ticketFacts
      (ticketDefinition.commands.head (by decide))
      (openTicket ⟨"rec_a", by decide⟩ ticketActor.text) := mayRun_longDefinition _ _
  refine ⟨compile_definition fullSpec, hmay, by decide +kernel, ?_⟩
  have hlong : (intentJson fullDefinition closeBlank).print.length > maxBytes := by
    have hfull := length_print_fullDefinition
    have hids : closeBlank.commandId.text.utf8ByteSize = 9 := by decide +kernel
    rw [length_print_intentJson rfl, hids]
    omega
  have hencode : boundedEncode (intentJson fullDefinition closeBlank) =
      .error (.limitExceeded "bytes" maxBytes) := by
    rw [boundedEncode, rejectIf, if_pos hlong]
    rfl
  have hspec : WellFormed fullDefinition := wellFormed fullSpec
  have hfor : closeBlank.IsFor (ticketDefinition.commands.head (by decide))
      (openTicket ⟨"rec_a", by decide⟩ ticketActor.text) := ⟨rfl, rfl⟩
  obtain ⟨prepared, -, hprepare⟩ :=
    prepareCommand_of_mayRun hspec hmay hfor (by decide +kernel) rfl
  rw [hprepare, hencode]
  rfl

end Evobase
