import Evobase.Store.Run

/-!
# Provisioning an app again

A store never forgets an app that it has provisioned: whatever calls follow, about this app or
another one, whether they return, fail or commit without reporting it, the app can be loaded and
its definition is filed under the same identity (`loads_run`). A provisioning of the app compares
its arguments with the row of the app as it is then. It returns the current snapshot when the
current facts are the facts it is given, and in every other case it is refused
(`bootstrap_again_iff`).
-/

namespace Evobase

open Foundation

/-- A snapshot is what the rows of an app say. -/
structure ReadsRows (store : Store) (scope : Scope) (application : ApplicationRow)
    (release : ReleaseRow) (snapshot : Snapshot) : Prop where
  revision : application.revision.val = snapshot.revision.val
  positive : snapshot.revision.val ≠ 0
  definition : decode store.reader release.specJson = .ok snapshot.spec
  filed : store.specIdentity release.specJson = application.specIdentity
  specJson : boundedEncode snapshot.spec.toJson = .ok release.specJson
  facts : decodeRecords store.reader snapshot.spec scope application.factsJson = .ok snapshot.facts
  factsJson : snapshot.facts.encode = .ok application.factsJson
  identity : snapshot.specIdentity = application.specIdentity

section Load

variable {store : Store} {tables after : Tables} {scope : Scope} {snapshot : Snapshot}

theorem selectApplication_eq_some {appId : AppId} {application : ApplicationRow}
    {release : ReleaseRow} :
    Store.selectApplication tables appId = some (application, release) ↔
      tables.applications.find? (fun row => row.appId = appId) = some application ∧
        tables.releases.find? (fun row => row.appId = appId ∧
          row.specIdentity = application.specIdentity) = some release := by
  simp only [Store.selectApplication, Option.bind_eq_bind, Option.bind_eq_some_iff,
    Option.some.injEq, Prod.mk.injEq]
  constructor
  · rintro ⟨row, hrow, found, hfound, rfl, rfl⟩
    exact ⟨hrow, hfound⟩
  · rintro ⟨happlication, hrelease⟩
    exact ⟨application, happlication, release, hrelease, rfl, rfl⟩

theorem load_eq_ok_iff :
    store.load tables scope = .ok snapshot ↔
      ∃ application release, Store.selectApplication tables scope.appId =
        some (application, release) ∧ ReadsRows store scope application release snapshot := by
  simp only [Store.load, bind_eq_ok, okOr_eq_ok, rejectIf_eq_ok, Exec.ofExcept_eq_ok,
    Exec.lift_eq_ok, ne_eq, not_not, Bounded.ofInt?_eq_some, Except.ok.injEq]
  constructor
  · rintro ⟨⟨application, release⟩, hselect, revision, hrevision, -, hpositive, spec, hdecode, -,
      hfiled, specJson, hencode, -, rfl, facts, hfacts, factsJson, hfactsJson, -, rfl, rfl⟩
    exact ⟨application, release, hselect,
      ⟨hrevision.symm, hpositive, hdecode, hfiled, hencode, hfacts, hfactsJson, rfl⟩⟩
  · rintro ⟨application, release, hselect, h⟩
    obtain ⟨spec, facts, revision, identity⟩ := snapshot
    obtain rfl : identity = application.specIdentity := h.identity
    exact ⟨(application, release), hselect, revision, h.revision.symm, (), h.positive, spec,
      h.definition, (), h.filed, _, h.specJson, (), rfl, facts, h.facts, _, h.factsJson, (), rfl,
      rfl⟩

theorem load_congr
    (h : Store.selectApplication after scope.appId = Store.selectApplication tables scope.appId) :
    store.load after scope = store.load tables scope := by
  rw [Store.load, Store.load, h]

theorem ReadsRows.wellFormed {application : ApplicationRow} {release : ReleaseRow}
    (h : ReadsRows store scope application release snapshot) : WellFormed snapshot.spec := by
  have hdefinition := h.definition
  rw [decode] at hdefinition
  obtain ⟨-, -, hdefinition⟩ := bind_eq_ok.1 hdefinition
  obtain ⟨raw, -, hcompile⟩ := bind_eq_ok.1 hdefinition
  exact Evobase.wellFormed ⟨snapshot.spec, raw, hcompile⟩

theorem ReadsRows.scope_eq {application : ApplicationRow} {release : ReleaseRow}
    (h : ReadsRows store scope application release snapshot) : snapshot.facts.scope = scope := by
  obtain ⟨records, hrecords⟩ := validated_of_decodeRecords h.facts
  rw [((validateRecords_eq_ok_iff h.wellFormed).1 hrecords).2]

/-- The rows of an app read as a snapshot when its facts and its revision are replaced. -/
theorem ReadsRows.replace {application : ApplicationRow} {release : ReleaseRow}
    (h : ReadsRows store scope application release snapshot) {next : CheckedRecords}
    {records : List RawRecord} {factsJson : List UInt8} {revision : U64} {sqlRevision : I64}
    (hnext : validateRecords snapshot.spec scope records = .ok next)
    (hfacts : next.encode = .ok factsJson) (hsame : sqlRevision.val = revision.val)
    (hpositive : revision.val ≠ 0) :
    ReadsRows store scope { application with factsJson, revision := sqlRevision } release
      { snapshot with facts := next, revision } := by
  obtain ⟨bytes, hencode, hdecode⟩ := decodeRecords_encode store.reader h.wellFormed hnext
  obtain rfl : factsJson = bytes := Except.ok.inj (hfacts.symm.trans hencode)
  exact {
    revision := hsame
    positive := hpositive
    definition := h.definition
    filed := h.filed
    specJson := h.specJson
    facts := hdecode
    factsJson := hfacts
    identity := h.identity }

end Load

/-- The app of the scope can be loaded, and its definition is filed under the identity. -/
def Store.Loads (store : Store) (scope : Scope) (identity : String) (tables : Tables) : Prop :=
  ∃ snapshot, store.load tables scope = .ok snapshot ∧ snapshot.specIdentity = identity

section Calls

variable {store : Store} {tables after : Tables} {scope : Scope} {identity : String}

theorem transact_outcome {α : Type} (backend : Backend) (tables : Tables)
    (operation : Exec StoreError (α × Tables)) :
    (∃ halt, transact backend tables operation = (.error halt, tables)) ∨
      ∃ result, operation = .ok (result, (transact backend tables operation).2) := by
  unfold transact
  split
  · exact .inl ⟨_, rfl⟩
  · exact .inl ⟨_, rfl⟩
  · exact .inr ⟨_, rfl⟩
  · exact .inl ⟨_, rfl⟩
  · exact .inr ⟨_, rfl⟩

theorem executeAt_outcome (call : ExecuteCall) :
    (∃ halt, store.executeAt tables call = (.error halt, tables)) ∨
      call.caller.scope.tenantId = store.tenantId ∧ ∃ receipt,
        store.executeIn tables call.answers call.caller call.expectedRevision call.request
          call.fault = .ok (receipt, (store.executeAt tables call).2) := by
  unfold Store.executeAt
  split
  · exact .inl ⟨_, rfl⟩
  · rename_i hscope
    simp only [Store.checkScope, rejectIf_eq_ok, ne_eq, not_not] at hscope
    exact (transact_outcome _ _ _).imp_right fun h => ⟨hscope, h⟩

theorem bootstrap_outcome (call : BootstrapCall) :
    (∃ halt, store.bootstrap tables call = (.error halt, tables)) ∨ ∃ snapshot factsJson,
      store.bootstrapIn tables call.spec call.facts.scope call.spec.definition.toJson.print
        factsJson = .ok (snapshot, (store.bootstrap tables call).2) := by
  unfold Store.bootstrap
  dsimp only
  split
  · exact .inl ⟨_, rfl⟩
  · rename_i specJson factsJson hchecked
    simp only [bind_eq_ok, Exec.ofExcept_eq_ok, CheckedAppSpec.encode,
      boundedEncode_eq_ok_iff (RawAppSpec.exact_toJson _), Except.ok.injEq, Prod.mk.injEq]
      at hchecked
    obtain ⟨-, -, checked, -, _, ⟨-, rfl⟩, _, -, rfl, rfl⟩ := hchecked
    refine (transact_outcome _ _ _).imp_right fun hin => ?_
    obtain ⟨snapshot, h⟩ := hin
    exact ⟨snapshot, _, h⟩

theorem find?_updateApplication {applications updated : List ApplicationRow} {appId : AppId}
    {expected revision : I64} {factsJson : List UInt8} {changed : Nat}
    (h : Store.updateApplication applications appId expected identity factsJson revision =
      .ok (changed, updated)) (other : AppId) :
    updated.find? (fun row => row.appId = other) =
      (applications.find? fun row => row.appId = other).map fun row =>
        if row.appId = appId ∧ row.revision = expected ∧ row.specIdentity = identity then
          { row with factsJson, revision } else row := by
  simp only [Store.updateApplication, bind_eq_ok, Except.ok.injEq, Prod.mk.injEq] at h
  obtain ⟨-, -, -, rfl⟩ := h
  rw [List.find?_map]
  congr 2
  funext row
  simp only [Function.comp_apply]
  split <;> rfl

/-- A commit leaves an app at its facts and revision, and every other app as it was. -/
theorem Store.Loads.commit (h : store.Loads scope identity tables)
    (htenant : scope.tenantId = store.tenantId) {answers : Answers} {caller : Caller}
    {request : RawCommandRequest} {expectedRevision : U64} {opened : Snapshot}
    {prepared : PreparedCommand} {intent : List UInt8} {c : Commit} {next : CheckedRecords}
    {factsJson : List UInt8} {applications : List ApplicationRow}
    (hcaller : caller.scope.tenantId = store.tenantId)
    (hopened : store.load tables caller.scope = .ok opened)
    (hcommit : CommitsTo store tables answers caller request expectedRevision opened prepared
      intent c next factsJson applications) :
    store.Loads scope identity (tables.commit c applications) := by
  obtain ⟨snapshot, hload, hidentity⟩ := h
  obtain ⟨application, release, hselect, hreads⟩ := load_eq_ok_iff.1 hload
  obtain ⟨happlication, hrelease⟩ := selectApplication_eq_some.1 hselect
  obtain ⟨sqlExpected, hexpected, hupdate⟩ := hcommit.updated
  have hfind := find?_updateApplication hupdate scope.appId
  rw [happlication, Option.map_some] at hfind
  by_cases happ : scope.appId = caller.scope.appId
  · obtain rfl : scope = caller.scope := Scope.ext_parts (htenant.trans hcaller.symm) happ
    obtain rfl : snapshot = opened := Except.ok.inj (hload.symm.trans hopened)
    have hrow : application.appId = caller.scope.appId := by
      simpa using List.find?_some happlication
    have hrevision : application.revision = sqlExpected :=
      Bounded.ext_val (hreads.revision.trans hexpected.symm)
    rw [if_pos ⟨hrow, hrevision, hreads.identity.symm⟩] at hfind
    obtain ⟨rows, -, hnext⟩ := hcommit.applied
    have hstep := hcommit.revision
    rw [Store.nextRevision, Bounded.checkedAdd_eq_some] at hstep
    have hlower := snapshot.revision.lower
    have hpositive : c.revision.val ≠ 0 := by
      rw [hstep, U64.one_val]
      change (0 : Int) ≤ _ at hlower
      omega
    exact ⟨_, load_eq_ok_iff.2 ⟨_, _, selectApplication_eq_some.2 ⟨hfind, hrelease⟩,
      hreads.replace hnext hcommit.encoded c.sameRevision hpositive⟩, hidentity⟩
  · have hrow : application.appId ≠ caller.scope.appId := by
      have hrow : application.appId = scope.appId := by simpa using List.find?_some happlication
      rwa [hrow]
    rw [if_neg fun hhit => hrow hhit.1] at hfind
    have hafter : Store.selectApplication (tables.commit c applications) scope.appId =
        some (application, release) := selectApplication_eq_some.2 ⟨hfind, hrelease⟩
    exact ⟨snapshot, (load_congr (hafter.trans hselect.symm)).trans hload, hidentity⟩

theorem Store.Loads.execute (h : store.Loads scope identity tables)
    (htenant : scope.tenantId = store.tenantId) (call : ExecuteCall) :
    store.Loads scope identity (store.executeAt tables call).2 := by
  rcases executeAt_outcome call with ⟨halt, hsame⟩ | ⟨hcaller, receipt, hin⟩
  · rwa [hsame]
  · obtain ⟨opened, prepared, intent, hopened, houtcome⟩ := executeIn_eq_ok.1 hin
    rcases houtcome with ⟨-, -, -, hsame⟩ | ⟨-, c, next, factsJson, applications, hcommit, -, hafter⟩
    · rwa [hsame]
    · rw [hafter]
      exact h.commit htenant hcaller hopened.loaded hcommit

theorem Store.Loads.bootstrap (h : store.Loads scope identity tables) (call : BootstrapCall) :
    store.Loads scope identity (store.bootstrap tables call).2 := by
  rcases bootstrap_outcome call with ⟨halt, hsame⟩ | ⟨snapshot, factsJson, hin⟩
  · rwa [hsame]
  · rcases Store.of_bootstrapIn hin with hsame | ⟨hnone, hafter⟩
    · rwa [hsame]
    · -- The rows that are added are rows of an app without rows, hence of another app.
      obtain ⟨snapshot, hload, hidentity⟩ := h
      obtain ⟨application, release, hselect, -⟩ := load_eq_ok_iff.1 hload
      obtain ⟨happlication, hrelease⟩ := selectApplication_eq_some.1 hselect
      refine ⟨snapshot, (load_congr ?_).trans hload, hidentity⟩
      refine (selectApplication_eq_some.2 ⟨?_, ?_⟩).trans hselect.symm
      · rw [hafter, List.find?_append, happlication, Option.some_or]
      · rw [hafter, List.find?_append, hrelease, Option.some_or]

theorem Store.Loads.step (h : store.Loads scope identity tables)
    (htenant : scope.tenantId = store.tenantId) (call : StoreCall) :
    store.Loads scope identity (store.step tables call).2 := by
  cases call with
  | execute call => exact h.execute htenant call
  | receipt call => exact h
  | bootstrap call => exact h.bootstrap call

theorem loads_run (h : store.Loads scope identity tables)
    (htenant : scope.tenantId = store.tenantId) (calls : List StoreCall) :
    store.Loads scope identity (runCalls store.step tables calls).2 :=
  runCalls_invariant store.step (fun _ tables => store.Loads scope identity tables)
    (fun _ _ => True) (fun _ _ call _ h => h.step htenant call) h
    (eachCall_of_forall (fun _ _ => trivial) tables calls)

end Calls

section Again

variable {store : Store} {tables : Tables} {scope : Scope} {call : BootstrapCall}
  {initial : CheckedRecords} {current : Snapshot}

theorem bootstrap_eq_transact (htenant : call.facts.scope.tenantId = store.tenantId)
    (hinitial : validateRecords call.spec.definition call.facts.scope call.facts.toRaw =
      .ok initial) :
    store.bootstrap tables call = transact call.backend tables
      (store.bootstrapIn tables call.spec call.facts.scope call.spec.definition.toJson.print
        (recordsToJson initial.records).print) := by
  obtain ⟨specJson, hspecJson, -⟩ := decode_encode store.reader call.spec
  obtain rfl : specJson = call.spec.definition.toJson.print :=
    ((boundedEncode_eq_ok_iff (RawAppSpec.exact_toJson _)).1 hspecJson).2
  obtain ⟨factsJson, hfactsJson, -⟩ :=
    decodeRecords_encode store.reader (wellFormed call.spec) hinitial
  obtain rfl : factsJson = (recordsToJson initial.records).print :=
    ((boundedEncode_eq_ok_iff (exact_recordsToJson _)).1 hfactsJson).2
  have hscope : store.checkScope call.facts.scope = .ok () := by
    rw [Store.checkScope, rejectIf_eq_ok, not_not]
    exact htenant
  simp only [Store.bootstrap, hscope, hinitial, hspecJson, hfactsJson, Exec.lift, Exec.ofExcept,
    ok_bind]

/-- The provisioning of an app that is there compares the definition and the facts that it is given
with the row of the app. -/
theorem bootstrap_of_load (htenant : call.facts.scope.tenantId = store.tenantId)
    (hinitial : validateRecords call.spec.definition call.facts.scope call.facts.toRaw =
      .ok initial) (hload : store.load tables call.facts.scope = .ok current) :
    store.bootstrap tables call =
      if current.specIdentity = call.spec.identity store ∧ current.facts = initial then
        transact call.backend tables (.ok (current, tables))
      else transact call.backend tables (.error (.fail .appAlreadyExists)) := by
  obtain ⟨application, release, hselect, hreads⟩ := load_eq_ok_iff.1 hload
  obtain ⟨happlication, -⟩ := selectApplication_eq_some.1 hselect
  have happ : call.facts.scope.appId = call.spec.definition.appId :=
    ((validateRecords_eq_ok_iff (wellFormed call.spec)).1 hinitial).1.app
  obtain ⟨records, hcurrent⟩ := validated_of_decodeRecords hreads.facts
  have htext : application.factsJson = (recordsToJson current.facts.records).print :=
    ((boundedEncode_eq_ok_iff (exact_recordsToJson _)).1 hreads.factsJson).2
  have hfacts : application.factsJson = (recordsToJson initial.records).print ↔
      current.facts = initial := by
    rw [htext]
    constructor
    · exact facts_eq_of_text store.reader hreads.wellFormed (wellFormed call.spec) hcurrent hinitial
    · rintro rfl
      rfl
  rw [bootstrap_eq_transact htenant hinitial, Store.bootstrapIn, ← happ, happlication,
    ← apply_ite (transact call.backend tables)]
  congr 1
  simp only [hload, ok_bind]
  by_cases hsame : current.specIdentity = call.spec.identity store ∧ current.facts = initial
  · rw [if_pos hsame, rejectIf_bind_of_not]
    rw [not_or, not_not, not_not, hfacts, ← hreads.identity]
    exact hsame
  · rw [if_neg hsame, rejectIf, if_pos]
    · rfl
    · rw [hreads.identity] at hsame
      rw [← not_and_or, hfacts]
      exact hsame

/-- A provisioning of an app that is there with a definition under another identity is an error
and changes nothing. -/
theorem bootstrap_of_other (hload : store.load tables scope = .ok current)
    (happ : call.spec.definition.appId = scope.appId)
    (hidentity : call.spec.identity store ≠ current.specIdentity) :
    ∃ halt, store.bootstrap tables call = (.error halt, tables) := by
  rcases bootstrap_outcome call with herror | ⟨snapshot, factsJson, hin⟩
  · exact herror
  · obtain ⟨application, release, hselect, hreads⟩ := load_eq_ok_iff.1 hload
    obtain ⟨happlication, -⟩ := selectApplication_eq_some.1 hselect
    rw [Store.bootstrapIn, happ, happlication] at hin
    obtain ⟨⟨⟩, hsame, -⟩ := bind_eq_ok.1 hin
    rw [rejectIf_eq_ok, not_or, not_not] at hsame
    exact absurd (hsame.1.symm.trans hreads.identity.symm) hidentity

theorem find?_append_singleton {α : Type} {p : α → Bool} {l : List α} {a : α}
    (hl : l.find? p = none) (ha : p a = true) : (l ++ [a]).find? p = some a := by
  rw [List.find?_append, hl, Option.none_or, List.find?_singleton, if_pos ha]

/-- A provisioning that returns has loaded the app, under the identity of its definition. -/
theorem load_of_bootstrap {start : Tables} {first : Snapshot}
    (h : store.bootstrap start call = (.ok first, tables)) :
    store.load tables call.facts.scope = .ok first ∧
      first.specIdentity = call.spec.identity store := by
  obtain ⟨-, checked, hinitial, hin⟩ := Store.of_bootstrap h
  have happ : call.facts.scope.appId = call.spec.definition.appId :=
    ((validateRecords_eq_ok_iff (wellFormed call.spec)).1 hinitial).1.app
  suffices hidentity : store.load tables call.facts.scope = .ok first ∧
      ∃ row, tables.applications.find? (fun row => row.appId = call.facts.scope.appId) = some row ∧
        row.specIdentity = call.spec.identity store by
    obtain ⟨hload, row, hrow, hfiled⟩ := hidentity
    obtain ⟨application, release, hselect, hreads⟩ := load_eq_ok_iff.1 hload
    obtain rfl : row = application :=
      Option.some.inj (hrow.symm.trans (selectApplication_eq_some.1 hselect).1)
    exact ⟨hload, hreads.identity.trans hfiled⟩
  unfold Store.bootstrapIn at hin
  split at hin
  · rename_i row hrow
    simp only [bind_eq_ok, rejectIf_eq_ok, not_or, ne_eq, not_not, Except.ok.injEq,
      Prod.mk.injEq] at hin
    obtain ⟨-, ⟨hfiled, -⟩, snapshot, hload, rfl, rfl⟩ := hin
    exact ⟨hload, row, happ ▸ hrow, hfiled⟩
  · rename_i hnone
    simp only [bind_eq_ok, Exec.ofExcept_eq_ok, insertRow_eq_ok, Except.ok.injEq,
      Prod.mk.injEq] at hin
    obtain ⟨releases, -, applications, ⟨-, -, rfl⟩, snapshot, hload, rfl, rfl⟩ := hin
    exact ⟨hload, _, happ ▸ find?_append_singleton hnone (by simp), rfl⟩

theorem identity_ne {spec other : CheckedAppSpec} (hne : other.definition ≠ spec.definition)
    (hdigest : store.digest other.definition.toJson.print =
        store.digest spec.definition.toJson.print →
      other.definition.toJson.print = spec.definition.toJson.print) :
    other.identity store ≠ spec.identity store := by
  intro hidentity
  rw [CheckedAppSpec.identity, CheckedAppSpec.identity, Store.specIdentity, Store.specIdentity,
    String.append_right_inj] at hidentity
  have hjson := Json.print_injective (RawAppSpec.exact_toJson _) (RawAppSpec.exact_toJson _)
    (hdigest hidentity)
  have hread := RawAppSpec.ofJson_toJson other.definition
  rw [hjson, RawAppSpec.ofJson_toJson] at hread
  exact hne (Option.some.inj hread).symm

end Again

/-- A provisioning of an app that is there is repeated exactly when the facts are again the facts
it was provisioned with. Whatever calls follow a provisioning that returns, the app has a current
snapshot; the same provisioning then returns this snapshot and changes nothing if and only if the
current facts are the validated facts of the provisioning, and otherwise it is refused, and the
provisioning of the app with another definition, under another digest, is always an error that
changes nothing. -/
theorem bootstrap_again_iff (store : Store) (start : Tables) (spec : CheckedAppSpec)
    (facts : CheckedRecords) (first : Snapshot) (tables : Tables)
    (hfirst : store.bootstrap start ⟨spec, facts, .up .applied⟩ = (.ok first, tables))
    (calls : List StoreCall) (history : List (StoreCall × StoreReply)) (after : Tables)
    (hrun : runCalls store.step tables calls = (history, after)) :
    ∃ initial current,
      validateRecords spec.definition facts.scope facts.toRaw = .ok initial ∧
      store.snapshot after facts.scope = .ok current ∧
      (store.bootstrap after ⟨spec, facts, .up .applied⟩ = (.ok current, after) ↔
        current.facts = initial) ∧
      (current.facts ≠ initial →
        store.bootstrap after ⟨spec, facts, .up .applied⟩ =
          (.error (.fail .appAlreadyExists), after)) ∧
      ∀ other : BootstrapCall, other.spec.definition.appId = spec.definition.appId →
        other.spec.definition ≠ spec.definition →
        (store.digest other.spec.definition.toJson.print =
            store.digest spec.definition.toJson.print →
          other.spec.definition.toJson.print = spec.definition.toJson.print) →
        ∃ halt, store.bootstrap after other = (.error halt, after) := by
  obtain ⟨htenant, initial, hinitial, -⟩ := Store.of_bootstrap hfirst
  have happ : facts.scope.appId = spec.definition.appId :=
    ((validateRecords_eq_ok_iff (wellFormed spec)).1 hinitial).1.app
  obtain ⟨hload, hfiled⟩ := load_of_bootstrap hfirst
  obtain ⟨current, hcurrent, hidentity⟩ : store.Loads facts.scope (spec.identity store) after := by
    have hloads := loads_run ⟨first, hload, hfiled⟩ htenant calls
    rwa [hrun] at hloads
  have hagain : store.bootstrap after ⟨spec, facts, .up .applied⟩ = _ :=
    bootstrap_of_load htenant hinitial hcurrent
  refine ⟨initial, current, hinitial, ?_, ?_, ?_, ?_⟩
  · rw [Store.snapshot, Store.checkScope, rejectIf_bind_of_not (not_not.2 htenant), hcurrent]
  · rw [hagain]
    constructor
    · intro hsame
      by_contra hne
      rw [if_neg fun h => hne h.2] at hsame
      cases hsame
    · intro hfacts
      rw [if_pos ⟨hidentity, hfacts⟩]
      rfl
  · intro hne
    rw [hagain, if_neg fun h => hne h.2]
    rfl
  · intro other hother hdefinition hdigest
    refine bootstrap_of_other hcurrent (hother.trans happ.symm) ?_
    rw [hidentity]
    exact identity_ne hdefinition hdigest

def renamedDefinition : RawAppSpec := { ticketDefinition with name := "Tickets" }

def renamedSpec : CheckedAppSpec := ⟨renamedDefinition, renamedDefinition, by decide +kernel⟩

theorem closeCall_run : ∃ first tables history after,
    digestStore.bootstrap emptyTables ⟨ticketSpec, ticketFacts, .up .applied⟩ =
        (.ok first, tables) ∧
      runCalls digestStore.step tables [.execute closeCall] = (history, after) ∧
      ∀ row ∈ after.applications, row.factsJson ≠ (recordsToJson ticketFacts.records).print := by
  obtain ⟨reply, tables, hbootstrap⟩ : ∃ reply tables,
      digestStore.bootstrap emptyTables ⟨ticketSpec, ticketFacts, .up .applied⟩ = (reply, tables) :=
    ⟨_, _, Prod.mk.eta.symm⟩
  obtain ⟨history, after, hrun⟩ : ∃ history after,
      runCalls digestStore.step tables [.execute closeCall] = (history, after) :=
    ⟨_, _, Prod.mk.eta.symm⟩
  have hcomputed :
      (digestStore.bootstrap emptyTables ⟨ticketSpec, ticketFacts, .up .applied⟩).1.toBool = true ∧
      ∀ row ∈ (runCalls digestStore.step (digestStore.bootstrap emptyTables
          ⟨ticketSpec, ticketFacts, .up .applied⟩).2 [.execute closeCall]).2.applications,
        row.factsJson ≠ (recordsToJson ticketFacts.records).print := by
    decide +kernel
  rw [hbootstrap] at hcomputed
  obtain ⟨first, rfl⟩ := exists_eq_ok hcomputed.1
  have hrows := hcomputed.2
  rw [hrun] at hrows
  exact ⟨first, tables, history, after, hbootstrap, hrun, hrows⟩

theorem row_of_load {store : Store} {tables : Tables} {scope : Scope} {current : Snapshot}
    (h : store.load tables scope = .ok current) :
    ∃ row ∈ tables.applications, row.factsJson = (recordsToJson current.facts.records).print := by
  obtain ⟨application, release, hselect, hreads⟩ := load_eq_ok_iff.1 h
  exact ⟨application, List.mem_of_find?_eq_some (selectApplication_eq_some.1 hselect).1,
    ((boundedEncode_eq_ok_iff (exact_recordsToJson _)).1 hreads.factsJson).2⟩

/-- After a ticket is closed, the provisioning that has returned before is refused. -/
theorem bootstrap_again_closed_fails : ∃ first tables history after,
    digestStore.bootstrap emptyTables ⟨ticketSpec, ticketFacts, .up .applied⟩ =
        (.ok first, tables) ∧
      runCalls digestStore.step tables [.execute closeCall] = (history, after) ∧
      digestStore.bootstrap after ⟨ticketSpec, ticketFacts, .up .applied⟩ =
        (.error (.fail .appAlreadyExists), after) := by
  obtain ⟨first, tables, history, after, hfirst, hrun, hrows⟩ := closeCall_run
  have hinitial : validateRecords ticketSpec.definition ticketFacts.scope ticketFacts.toRaw =
      .ok ticketFacts := by decide +kernel
  obtain ⟨current, hload, -⟩ : digestStore.Loads ticketScope (ticketSpec.identity digestStore)
      after := by
    have hloads := loads_run ⟨first, load_of_bootstrap hfirst⟩ rfl [.execute closeCall]
    rwa [hrun] at hloads
  have hchanged : current.facts ≠ ticketFacts := by
    obtain ⟨row, hrow, htext⟩ := row_of_load hload
    rintro hfacts
    exact hrows row hrow (hfacts ▸ htext)
  refine ⟨first, tables, history, after, hfirst, hrun, ?_⟩
  have hagain : digestStore.bootstrap after ⟨ticketSpec, ticketFacts, .up .applied⟩ = _ :=
    bootstrap_of_load rfl hinitial hload
  rw [hagain, if_neg fun h => hchanged h.2]
  rfl

theorem bootstrap_again_iff_closed : ∃ first tables history after,
    digestStore.bootstrap emptyTables ⟨ticketSpec, ticketFacts, .up .applied⟩ =
        (.ok first, tables) ∧
      runCalls digestStore.step tables [.execute closeCall] = (history, after) ∧
      ∃ current, digestStore.snapshot after ticketScope = .ok current ∧
        current.facts ≠ ticketFacts ∧
        ∃ halt, digestStore.bootstrap after ⟨renamedSpec, ticketFacts, .up .applied⟩ =
          (.error halt, after) := by
  obtain ⟨first, tables, history, after, hfirst, hrun, hrows⟩ := closeCall_run
  obtain ⟨initial, current, -, hcurrent, -, -, hother⟩ := bootstrap_again_iff digestStore
    emptyTables ticketSpec ticketFacts first tables hfirst [.execute closeCall] history after hrun
  refine ⟨first, tables, history, after, hfirst, hrun, current, hcurrent, ?_, ?_⟩
  · obtain ⟨-, -, hload⟩ := bind_eq_ok.1 hcurrent
    obtain ⟨row, hrow, htext⟩ := row_of_load hload
    rintro hfacts
    exact hrows row hrow (hfacts ▸ htext)
  · refine hother ⟨renamedSpec, ticketFacts, .up .applied⟩ rfl (by decide) fun hdigest => ?_
    revert hdigest
    decide +kernel

end Evobase
