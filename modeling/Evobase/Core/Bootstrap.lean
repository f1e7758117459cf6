import Evobase.Core.Database
import Evobase.Foundation.Run

/-!
# Bootstrapping databases

A manager bootstraps databases, one call at a time: a call takes the lock, looks whether the id
is registered, has the database provisioned and introspected, and registers the result. Every
access to the registry and to the lock is one step, and calls interleave between their steps. A
call can also be dropped wherever it waits; its guard of the lock goes with it.

The invariant says who holds the lock, and that a call that holds it and has found the id free
still finds it free when it registers it, whatever the other calls do between its steps.
-/

namespace Evobase

open Foundation

section Bootstrap

variable {σ : Type}

inductive ProvisionDatabaseOutcome (σ : Type) where
  | ready (storage : σ)
  | failed (failure : DatabaseBootstrapFailure)

/-- Where a call to bootstrap a database stands. -/
inductive DatabaseCall (σ : Type) where
  /-- The request is valid; the call waits for the lock. -/
  | waiting (request : BootstrapDatabaseRequest)
  | checking (request : BootstrapDatabaseRequest)
  | provisioning (request : BootstrapDatabaseRequest)
  | introspecting (request : BootstrapDatabaseRequest) (storage : σ)
  | registering (database : ManagedDatabase) (storage : Option σ)
  | returned (result : AppResult ManagedDatabase)
  | dropped

namespace DatabaseCall

def holdsLock : DatabaseCall σ → Bool
  | checking _ | provisioning _ | introspecting _ _ | registering _ _ => true
  | _ => false

def start (request : BootstrapDatabaseRequest) : DatabaseCall σ :=
  match request.validate with
  | .ok _ => waiting request
  | .error e => returned (.error e)

/-- The look at the registry before the provisioner is called. -/
def check (registry : DatabaseRegistry σ) (request : BootstrapDatabaseRequest) : DatabaseCall σ :=
  if registry.contains request.databaseId then
    returned (.error (DatabaseRegistry.alreadyRegistered request.databaseId))
  else provisioning request

/-- The provisioner has answered. -/
def provisioned (request : BootstrapDatabaseRequest) :
    AppResult (ProvisionDatabaseOutcome σ) → DatabaseCall σ
  | .error e => returned (.error e)
  | .ok (.ready storage) => introspecting request storage
  | .ok (.failed failure) =>
      registering (.fromBootstrapRequest request .bootstrapFailed (some failure)) none

/-- The storage has described its tables, or failed to. -/
def described (request : BootstrapDatabaseRequest) (storage : σ) : AppResult Unit → DatabaseCall σ
  | .error e =>
      registering (.fromBootstrapRequest request .bootstrapFailed
        (some ⟨.introspectSchema, e.text, none, none⟩)) none
  | .ok _ => registering (.fromBootstrapRequest request .ready none) (some storage)

end DatabaseCall

/-- The manager with the calls that have been made. -/
structure DatabaseManager (σ : Type) where
  registry : DatabaseRegistry σ
  lock : Option Nat
  calls : Nat → Option (DatabaseCall σ)

/-- A step of a call; what the provisioner and the storage answer is free. -/
inductive DatabaseAction (σ : Type) where
  | call (request : BootstrapDatabaseRequest)
  | acquire
  | check
  | provisioned (outcome : AppResult (ProvisionDatabaseOutcome σ))
  | described (outcome : AppResult Unit)
  | register
  | drop

namespace DatabaseManager

def new (registry : DatabaseRegistry σ) : DatabaseManager σ := ⟨registry, none, fun _ => none⟩

/-- The call stands elsewhere; it has the lock as long as it holds the guard. -/
def move (manager : DatabaseManager σ) (i : Nat) (call : DatabaseCall σ) : DatabaseManager σ where
  registry := manager.registry
  lock := if call.holdsLock then some i else if manager.lock = some i then none else manager.lock
  calls := Function.update manager.calls i (some call)

/-- The registration of a database, and the return of the call. -/
def register (manager : DatabaseManager σ) (i : Nat) (database : ManagedDatabase)
    (storage : Option σ) : DatabaseManager σ :=
  match manager.registry.register database storage with
  | .ok registry => { manager with registry }.move i (.returned (.ok database))
  | .error e => manager.move i (.returned (.error e))

def step (manager : DatabaseManager σ) (action : Nat × DatabaseAction σ) :
    Option (DatabaseManager σ) :=
  match manager.calls action.1, action.2 with
  | none, .call request => some (manager.move action.1 (.start request))
  | some (.waiting request), .acquire =>
      if manager.lock = none then some (manager.move action.1 (.checking request)) else none
  | some (.checking request), .check =>
      some (manager.move action.1 (.check manager.registry request))
  | some (.provisioning request), .provisioned outcome =>
      some (manager.move action.1 (.provisioned request outcome))
  | some (.introspecting request storage), .described outcome =>
      some (manager.move action.1 (.described request storage outcome))
  | some (.registering database storage), .register =>
      some (manager.register action.1 database storage)
  | some (.returned _), .drop => none
  | some _, .drop => some (manager.move action.1 .dropped)
  | _, _ => none

end DatabaseManager

/-- A database is ready exactly when it has an adapter, and exactly when it has no failure. -/
def DatabaseEntry.Linked (entry : DatabaseEntry σ) : Prop :=
  (entry.database.status = .ready ↔ entry.storage.isSome = true) ∧
    (entry.database.status = .ready ↔ entry.database.failure = none)

/-- The entries of a registry are entered under their ids and linked. -/
def DatabaseRegistry.Linked (registry : DatabaseRegistry σ) : Prop :=
  ∀ id entry, registry.entries.get? id = some entry →
    entry.database.databaseId = id ∧ entry.Linked

section Registry

variable {registry registry' : DatabaseRegistry σ} {database : ManagedDatabase}
  {storage : Option σ} {id : String} {entry : DatabaseEntry σ}

theorem contains_eq_false_iff :
    registry.contains id = false ↔ registry.entries.get? id = none := by
  simp [DatabaseRegistry.contains]

theorem register_eq_ok_iff :
    registry.register database storage = .ok registry' ↔
      registry.contains database.databaseId = false ∧ registry' = { registry with
        entries := registry.entries.insert database.databaseId ⟨database, storage⟩ } := by
  simp only [DatabaseRegistry.register, bind_eq_ok, rejectIf_eq_ok, Bool.not_eq_true,
    Except.ok.injEq]
  constructor
  · rintro ⟨-, hfresh, heq⟩
    exact ⟨hfresh, heq.symm⟩
  · rintro ⟨hfresh, heq⟩
    exact ⟨(), hfresh, heq.symm⟩

theorem get?_of_register (h : registry.register database storage = .ok registry')
    (hentry : registry.entries.get? id = some entry) : registry'.entries.get? id = some entry := by
  obtain ⟨hfresh, rfl⟩ := register_eq_ok_iff.1 h
  have hne : id ≠ database.databaseId := by
    rintro rfl
    rw [contains_eq_false_iff, hentry] at hfresh
    cases hfresh
  exact (OrdMap.get?_insert_of_ne _ _ hne).trans hentry

theorem DatabaseRegistry.Linked.register (hlinked : registry.Linked)
    (h : registry.register database storage = .ok registry')
    (hentry : DatabaseEntry.Linked ⟨database, storage⟩) : registry'.Linked := by
  obtain ⟨-, rfl⟩ := register_eq_ok_iff.1 h
  intro id entry hget
  rw [OrdMap.get?_insert] at hget
  split_ifs at hget with hid
  · obtain rfl := Option.some.inj hget
    exact ⟨hid.symm, hentry⟩
  · exact hlinked id entry hget

theorem DatabaseRegistry.Linked.resolve_ne_internal (h : registry.Linked)
    (databaseId : Option String) (message : String) :
    registry.resolve databaseId ≠ .error (.internal message) := by
  intro hresolve
  simp only [DatabaseRegistry.resolve, bind_eq_error, okOr_eq_error, okOr_eq_ok,
    rejectIf_eq_error, rejectIf_eq_ok, not_not] at hresolve
  rcases hresolve with ⟨-, hne⟩ | ⟨entry, hget, ⟨-, hne⟩ | ⟨_, hready, ⟨hnone, -⟩ | ⟨_, _, hend⟩⟩⟩
  · cases hne
  · cases hne
  · have hsome := (h _ entry hget).2.1.1 hready
    rw [hnone] at hsome
    cases hsome
  · cases hend

end Registry

/-- What a call that a step leads to has seen. -/
inductive DatabaseManager.Enters (manager : DatabaseManager σ) (i : Nat) : DatabaseCall σ → Prop
  | start (request : BootstrapDatabaseRequest) (hcall : manager.calls i = none) :
      manager.Enters i (.start request)
  | acquire (request : BootstrapDatabaseRequest)
      (hcall : manager.calls i = some (.waiting request)) (hfree : manager.lock = none) :
      manager.Enters i (.checking request)
  | check (request : BootstrapDatabaseRequest)
      (hcall : manager.calls i = some (.checking request)) :
      manager.Enters i (.check manager.registry request)
  | provisioned (request : BootstrapDatabaseRequest)
      (outcome : AppResult (ProvisionDatabaseOutcome σ))
      (hcall : manager.calls i = some (.provisioning request)) :
      manager.Enters i (.provisioned request outcome)
  | described (request : BootstrapDatabaseRequest) (storage : σ) (outcome : AppResult Unit)
      (hcall : manager.calls i = some (.introspecting request storage)) :
      manager.Enters i (.described request storage outcome)
  | refused (database : ManagedDatabase) (storage : Option σ) (e : AppError)
      (hcall : manager.calls i = some (.registering database storage)) :
      manager.Enters i (.returned (.error e))
  | dropped (call : DatabaseCall σ) (hcall : manager.calls i = some call)
      (hpending : ∀ result, call ≠ .returned result) : manager.Enters i .dropped

section Steps

variable {manager next : DatabaseManager σ} {i : Nat} {action : DatabaseAction σ}

/-- A step moves one call and leaves the registry, or it registers the database of a call and
the call returns it. -/
theorem DatabaseManager.step_cases (h : manager.step (i, action) = some next) :
    (∃ call, manager.Enters i call ∧ next = manager.move i call) ∨
      ∃ database storage registry, manager.calls i = some (.registering database storage) ∧
        manager.registry.register database storage = .ok registry ∧
        next = { manager with registry }.move i (.returned (.ok database)) := by
  unfold DatabaseManager.step at h
  split at h
  · next request hcall _ =>
      exact .inl ⟨_, .start request hcall, (Option.some.inj h).symm⟩
  · next request hcall _ =>
      split_ifs at h with hfree
      exact .inl ⟨_, .acquire request hcall hfree, (Option.some.inj h).symm⟩
  · next request hcall _ => exact .inl ⟨_, .check request hcall, (Option.some.inj h).symm⟩
  · next request outcome hcall _ =>
      exact .inl ⟨_, .provisioned request outcome hcall, (Option.some.inj h).symm⟩
  · next request storage outcome hcall _ =>
      exact .inl ⟨_, .described request storage outcome hcall, (Option.some.inj h).symm⟩
  · next database storage hcall _ =>
      have hnext := Option.some.inj h
      unfold DatabaseManager.register at hnext
      cases hregister : manager.registry.register database storage with
      | ok registry =>
          rw [hregister] at hnext
          exact .inr ⟨database, storage, registry, hcall, hregister, hnext.symm⟩
      | error e =>
          rw [hregister] at hnext
          exact .inl ⟨_, .refused database storage e hcall, hnext.symm⟩
  · cases h
  · next call hnot hcall _ =>
      refine .inl ⟨_, .dropped call hcall fun result hresult => ?_, (Option.some.inj h).symm⟩
      exact hnot result hresult
  · cases h

end Steps

/-- What holds of a call that stands where it does: the id that it provisions or registers is
free, and the entry that it registers is linked. -/
def DatabaseCall.Pending (registry : DatabaseRegistry σ) : DatabaseCall σ → Prop
  | .provisioning request | .introspecting request _ =>
      registry.contains request.databaseId = false
  | .registering database storage =>
      registry.contains database.databaseId = false ∧ DatabaseEntry.Linked ⟨database, storage⟩
  | _ => True

namespace DatabaseManager

/-- The registry is linked, a call that holds the guard has the lock, and every call stands
where it may. -/
structure Invariant (manager : DatabaseManager σ) : Prop where
  linked : manager.registry.Linked
  guarded : ∀ i call, manager.calls i = some call → call.holdsLock = true → manager.lock = some i
  pending : ∀ i call, manager.calls i = some call → call.Pending manager.registry

section Invariant

variable {manager next : DatabaseManager σ} {i j : Nat} {call : DatabaseCall σ}
  {action : DatabaseAction σ}

@[simp] theorem registry_move : (manager.move i call).registry = manager.registry := rfl

@[simp] theorem calls_move_self : (manager.move i call).calls i = some call :=
  Function.update_self i _ _

theorem calls_move_of_ne (h : j ≠ i) : (manager.move i call).calls j = manager.calls j :=
  Function.update_of_ne h _ _

/-- A call that a step leads to stands where it may. -/
theorem Enters.pending (h : manager.Enters i call) (hinv : manager.Invariant) :
    call.Pending manager.registry := by
  cases h with
  | start request hcall =>
      unfold DatabaseCall.start
      split <;> trivial
  | acquire => trivial
  | check request hcall =>
      unfold DatabaseCall.check
      split_ifs with hcontains
      · trivial
      · exact Bool.eq_false_iff.2 hcontains
  | provisioned request outcome hcall =>
      have hfresh := hinv.pending i _ hcall
      cases outcome with
      | error e => trivial
      | ok outcome =>
          cases outcome with
          | ready storage => exact hfresh
          | failed failure => exact ⟨hfresh, by simp [DatabaseEntry.Linked,
              ManagedDatabase.fromBootstrapRequest]⟩
  | described request storage outcome hcall =>
      have hfresh := hinv.pending i _ hcall
      cases outcome <;> exact ⟨hfresh, by simp [DatabaseEntry.Linked,
        ManagedDatabase.fromBootstrapRequest]⟩
  | refused => trivial
  | dropped => trivial

theorem Enters.lock (h : manager.Enters i call) (hinv : manager.Invariant)
    (hholds : call.holdsLock = true) : manager.lock = none ∨ manager.lock = some i := by
  cases h with
  | start request hcall =>
      unfold DatabaseCall.start at hholds
      split at hholds <;> cases hholds
  | acquire request hcall hfree => exact .inl hfree
  | check request hcall => exact .inr (hinv.guarded i _ hcall rfl)
  | provisioned request outcome hcall => exact .inr (hinv.guarded i _ hcall rfl)
  | described request storage outcome hcall => exact .inr (hinv.guarded i _ hcall rfl)
  | refused => cases hholds
  | dropped => cases hholds

theorem guarded_move (hinv : manager.Invariant)
    (hlock : call.holdsLock = true → manager.lock = none ∨ manager.lock = some i)
    {other : DatabaseCall σ} (hother : (manager.move i call).calls j = some other)
    (hholds : other.holdsLock = true) : (manager.move i call).lock = some j := by
  by_cases hj : j = i
  · subst hj
    obtain rfl := Option.some.inj (calls_move_self.symm.trans hother)
    exact if_pos hholds
  · rw [calls_move_of_ne hj] at hother
    have hguard := hinv.guarded j other hother hholds
    have hfree : call.holdsLock = false := by
      rw [Bool.eq_false_iff]
      intro hcall
      rcases hlock hcall with hnone | hself
      · exact absurd (hguard.symm.trans hnone) (by simp)
      · exact hj (Option.some.inj (hguard.symm.trans hself))
    simp [move, hfree, hguard, hj]

theorem Invariant.step (hinv : manager.Invariant) (h : manager.step (i, action) = some next) :
    next.Invariant := by
  rcases step_cases h with ⟨call, henters, rfl⟩ | ⟨database, storage, registry, hcall, hregister, rfl⟩
  · refine ⟨hinv.linked, fun j other hother hholds =>
      guarded_move hinv (henters.lock hinv) hother hholds, fun j other hother => ?_⟩
    by_cases hj : j = i
    · subst hj
      obtain rfl := Option.some.inj (calls_move_self.symm.trans hother)
      exact henters.pending hinv
    · rw [calls_move_of_ne hj] at hother
      exact hinv.pending j other hother
  · obtain ⟨-, hlinked⟩ := hinv.pending i _ hcall
    have hguard := hinv.guarded i _ hcall rfl
    -- only the call that registers holds the guard, so no other call has an id to keep free
    have hothers : ∀ j other, j ≠ i → manager.calls j = some other → other.holdsLock = false := by
      intro j other hj hother
      rw [Bool.eq_false_iff]
      intro hholds
      exact hj (Option.some.inj ((hinv.guarded j other hother hholds).symm.trans hguard))
    refine ⟨hinv.linked.register hregister hlinked, fun j other hother hholds => ?_,
      fun j other hother => ?_⟩
    · by_cases hj : j = i
      · subst hj
        obtain rfl := Option.some.inj (calls_move_self.symm.trans hother)
        cases hholds
      · rw [calls_move_of_ne hj] at hother
        rw [hothers j other hj hother] at hholds
        cases hholds
    · by_cases hj : j = i
      · subst hj
        obtain rfl := Option.some.inj (calls_move_self.symm.trans hother)
        trivial
      · rw [calls_move_of_ne hj] at hother
        have hfree := hothers j other hj hother
        cases other <;> trivial

theorem get?_of_step (h : manager.step (i, action) = some next) {id : String}
    {entry : DatabaseEntry σ} (hentry : manager.registry.entries.get? id = some entry) :
    next.registry.entries.get? id = some entry := by
  rcases step_cases h with ⟨call, -, rfl⟩ | ⟨database, storage, registry, -, hregister, rfl⟩
  · exact hentry
  · exact get?_of_register hregister hentry

theorem returned_of_step (h : manager.step (i, action) = some next)
    {result : AppResult ManagedDatabase} (hcall : manager.calls j = some (.returned result)) :
    next.calls j = some (.returned result) := by
  have hne : ∀ call, manager.Enters i call → j ≠ i := by
    rintro call henters rfl
    cases henters with
    | dropped other hother hpending =>
        exact hpending result (Option.some.inj (hother.symm.trans hcall))
    | _ => simp_all
  rcases step_cases h with ⟨call, henters, rfl⟩ | ⟨database, storage, registry, hother, -, rfl⟩
  · exact (calls_move_of_ne (hne call henters)).trans hcall
  · have hj : j ≠ i := by
      rintro rfl
      cases hother.symm.trans hcall
    exact (calls_move_of_ne hj).trans hcall

end Invariant

/-- A manager whose default database has the given id and storage, before any call. -/
def withDefault (databaseId postgresDatabase : String) (storage : σ) : DatabaseManager σ :=
  .new (.new (.defaultDatabase databaseId postgresDatabase) storage)

section Runs

variable {databaseId postgresDatabase : String} {storage : σ} {manager next last : DatabaseManager σ}
  {actions : List (Nat × DatabaseAction σ)}

theorem get?_withDefault {id : String} {entry : DatabaseEntry σ}
    (h : (withDefault databaseId postgresDatabase storage).registry.entries.get? id = some entry) :
    id = databaseId ∧ entry = ⟨.defaultDatabase databaseId postgresDatabase, some storage⟩ := by
  simp only [withDefault, new, DatabaseRegistry.new, OrdMap.get?_insert] at h
  split_ifs at h with hid
  · exact ⟨hid, (Option.some.inj h).symm⟩
  · simp at h

theorem invariant_withDefault :
    (withDefault databaseId postgresDatabase storage).Invariant where
  linked := by
    intro id entry hget
    obtain ⟨rfl, rfl⟩ := get?_withDefault hget
    exact ⟨rfl, by simp [DatabaseEntry.Linked, ManagedDatabase.defaultDatabase]⟩
  guarded := by
    intro i call hcall
    cases hcall
  pending := by
    intro i call hcall
    cases hcall

theorem invariant_of_run
    (h : runActions step (withDefault databaseId postgresDatabase storage) actions = some manager) :
    manager.Invariant :=
  runActions_invariant Invariant (fun _ _ _ hinv hstep => hinv.step hstep) invariant_withDefault h

theorem get?_of_run (h : runActions step manager actions = some last) {id : String}
    {entry : DatabaseEntry σ} (hentry : manager.registry.entries.get? id = some entry) :
    last.registry.entries.get? id = some entry :=
  runActions_invariant (fun m => m.registry.entries.get? id = some entry)
    (fun _ _ _ hget hstep => get?_of_step hstep hget) hentry h

theorem returned_of_run (h : runActions step manager actions = some last) {i : Nat}
    {result : AppResult ManagedDatabase} (hcall : manager.calls i = some (.returned result)) :
    last.calls i = some (.returned result) :=
  runActions_invariant (fun m => m.calls i = some (.returned result))
    (fun _ _ _ hreturned hstep => returned_of_step hstep hreturned) hcall h

theorem registry_of_failed {i : Nat} {action : DatabaseAction σ}
    (h : manager.step (i, action) = some next) (hrest : runActions step next actions = some last)
    {e : AppError} (hfailed : last.calls i = some (.returned (.error e))) :
    next.registry = manager.registry := by
  rcases step_cases h with ⟨call, -, rfl⟩ | ⟨database, storage, registry, -, -, rfl⟩
  · rfl
  · cases hfailed.symm.trans (returned_of_run hrest calls_move_self)

end Runs

/-- The registry of a manager that has a default database and takes calls. -/
structure Sound (databaseId postgresDatabase : String) (storage : σ) (manager : DatabaseManager σ) :
    Prop where
  /-- No two entries are of one database. -/
  unique : (manager.registry.entries.values.map (·.database.databaseId)).Nodup
  keyed : ∀ id entry, manager.registry.entries.get? id = some entry → entry.database.databaseId = id
  default : manager.registry.entries.get? databaseId =
    some ⟨.defaultDatabase databaseId postgresDatabase, some storage⟩
  linked : ∀ id entry, manager.registry.entries.get? id = some entry → entry.Linked
  /-- One call at a time has the provisioner at work, for an id that is free. -/
  exclusive : ∀ i j request request', manager.calls i = some (.provisioning request) →
    manager.calls j = some (.provisioning request') → i = j
  free : ∀ i request, manager.calls i = some (.provisioning request) →
    manager.registry.entries.get? request.databaseId = none
  resolve : ∀ id message, manager.registry.resolve id ≠ .error (.internal message)

/-- In every run of interleaved calls the registry is sound, entries are never changed or
removed, and the calls that fail have left the registry as it was. -/
theorem registry_sound (databaseId postgresDatabase : String) (storage : σ)
    (before : List (Nat × DatabaseAction σ)) (manager : DatabaseManager σ)
    (h : runActions step (withDefault databaseId postgresDatabase storage) before = some manager) :
    manager.Sound databaseId postgresDatabase storage ∧
      (∀ after last, runActions step manager after = some last → ∀ id entry,
        manager.registry.entries.get? id = some entry →
          last.registry.entries.get? id = some entry) ∧
      ∀ i action after next last e, manager.step (i, action) = some next →
        runActions step next after = some last → last.calls i = some (.returned (.error e)) →
          next.registry = manager.registry := by
  have hinv := invariant_of_run h
  have hkeys : manager.registry.entries.values.map (·.database.databaseId) =
      manager.registry.entries.keys := by
    rw [OrdMap.values, OrdMap.keys, List.map_map]
    exact List.map_congr_left fun entry hentry =>
      (hinv.linked _ _ (OrdMap.mem_entries_iff.1 hentry)).1
  refine ⟨?_, fun after last hrun id entry => get?_of_run hrun,
    fun i action after next last e hstep hrun => registry_of_failed hstep hrun⟩
  refine ⟨hkeys ▸ manager.registry.entries.keys_nodup, fun id entry hget =>
    (hinv.linked id entry hget).1, ?_, fun id entry hget => (hinv.linked id entry hget).2,
    fun i j request request' hi hj => ?_, fun i request hi => ?_, hinv.linked.resolve_ne_internal⟩
  · exact get?_of_run h (OrdMap.get?_insert_self _ _ _)
  · exact Option.some.inj ((hinv.guarded i _ hi rfl).symm.trans (hinv.guarded j _ hj rfl))
  · exact contains_eq_false_iff.1 (hinv.pending i _ hi)

/-- A request for a database of notes. -/
def notesRequest : BootstrapDatabaseRequest where
  databaseId := "notes"
  postgresDatabase := "notes"
  scripts := [⟨"schema", "create table notes (id int)"⟩]
  description := none
  tags := []
  owner := none
  existingDatabasePolicy := .fail

/-- Two calls for one database: the second finds it registered. -/
def notesActions : List (Nat × DatabaseAction Unit) :=
  [(0, .call notesRequest), (1, .call notesRequest), (0, .acquire), (0, .check),
    (0, .provisioned (.ok (.ready ()))), (0, .described (.ok ())), (0, .register), (1, .acquire),
    (1, .check)]

theorem registry_sound_notes : ∃ manager,
    runActions step (withDefault "main" "main" ()) notesActions = some manager ∧
      manager.Sound "main" "main" () := by
  obtain ⟨manager, hrun⟩ := Option.isSome_iff_exists.1
    (show (runActions step (withDefault "main" "main" ()) notesActions).isSome = true by
      decide +kernel)
  exact ⟨manager, hrun, (registry_sound "main" "main" () notesActions manager hrun).1⟩

end DatabaseManager

end Bootstrap

end Evobase
