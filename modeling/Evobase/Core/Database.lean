import Evobase.AppSpec.Constraint
import Evobase.Core.Rest

/-!
# The registry of databases

The registry holds the databases by their ids, the default one from the start, with the adapters
of their storages. A database that could not be bootstrapped is registered with its failure and
without an adapter.
-/

namespace Evobase

open Foundation

inductive DatabaseKind where
  | default
  | bootstrapped
deriving DecidableEq, Repr

inductive DatabaseStatus where
  | ready
  | bootstrapFailed
deriving DecidableEq, Repr

inductive ExistingDatabasePolicy where
  | fail
  | useExisting
deriving DecidableEq, Repr

inductive BootstrapFailureStage where
  | createDatabase
  | connectDatabase
  | executeScript
  | introspectSchema
deriving DecidableEq, Repr

structure DatabaseBootstrapFailure where
  stage : BootstrapFailureStage
  message : String
  scriptName : Option String
  scriptIndex : Option Nat
deriving DecidableEq, Repr

structure BootstrapSqlScript where
  name : String
  sql : String
deriving DecidableEq, Repr

structure BootstrapDatabaseRequest where
  databaseId : String
  postgresDatabase : String
  scripts : List BootstrapSqlScript
  description : Option String
  tags : List String
  owner : Option String
  existingDatabasePolicy : ExistingDatabasePolicy
deriving DecidableEq, Repr

structure ManagedDatabase where
  databaseId : String
  postgresDatabase : String
  description : Option String
  tags : List String
  owner : Option String
  kind : DatabaseKind
  status : DatabaseStatus
  scriptCount : Nat
  failure : Option DatabaseBootstrapFailure
deriving DecidableEq, Repr

def isNamePart (c : Char) : Bool := c.isAlphanum || c = '_' || c = '-'

def validateDatabaseId (databaseId : String) : AppResult Unit :=
  match databaseId.toList with
  | [] => .error (.badRequest "database_id cannot be empty")
  | first :: rest => do
      rejectIf (isIdentifierStart first = false)
        (.badRequest ("database_id `" ++ databaseId ++ "` must start with a letter or underscore"))
      rejectIf (rest.all isNamePart = false)
        (.badRequest ("database_id `" ++ databaseId ++ "` contains unsupported characters"))

def validateOptionalText (field : String) (value : Option String) (maxChars : Nat) :
    AppResult Unit :=
  match value with
  | none => .ok ()
  | some value => do
      rejectIf (trim value = "") (.badRequest (field ++ " cannot be blank"))
      rejectIf ((trim value).length > maxChars)
        (.badRequest (field ++ " is too long; max " ++ toString maxChars ++ " characters"))

def validateTag (tag : String) : AppResult Unit := do
  rejectIf (trim tag = "") (.badRequest "tags cannot contain blank values")
  rejectIf ((trim tag).length > 32)
    (.badRequest ("tag `" ++ trim tag ++ "` is too long; max 32 characters"))
  rejectIf ((trim tag).toList.all isNamePart = false)
    (.badRequest ("tag `" ++ trim tag ++ "` contains unsupported characters"))

/-- A script with its place in the request. -/
def validateScript (number : Nat) (script : BootstrapSqlScript) : AppResult Unit := do
  rejectIf (trim script.name = "")
    (.badRequest ("script #" ++ toString number ++ " must have a non-empty name"))
  rejectIf ((trim script.name).length > 128)
    (.badRequest ("script `" ++ trim script.name ++ "` is too long; max 128 characters"))
  rejectIf (trim script.sql = "")
    (.badRequest ("script `" ++ trim script.name ++ "` cannot be empty"))

def BootstrapDatabaseRequest.validate (request : BootstrapDatabaseRequest) : AppResult Unit := do
  validateDatabaseId request.databaseId
  validateIdentifier request.postgresDatabase
  rejectIf (request.scripts = [])
    (.badRequest "bootstrap request must contain at least one SQL script")
  validateOptionalText "description" request.description 512
  validateOptionalText "owner" request.owner 128
  each validateTag request.tags
  eachAfter (fun before script => validateScript (before.length + 1) script) [] request.scripts

namespace ManagedDatabase

def defaultDatabase (databaseId postgresDatabase : String) : ManagedDatabase where
  databaseId := databaseId
  postgresDatabase := postgresDatabase
  description := some "Default database from DATABASE_URL"
  tags := []
  owner := none
  kind := .default
  status := .ready
  scriptCount := 0
  failure := none

def fromBootstrapRequest (request : BootstrapDatabaseRequest) (status : DatabaseStatus)
    (failure : Option DatabaseBootstrapFailure) : ManagedDatabase where
  databaseId := request.databaseId
  postgresDatabase := request.postgresDatabase
  description := request.description
  tags := request.tags
  owner := request.owner
  kind := .bootstrapped
  status := status
  scriptCount := request.scripts.length
  failure := failure

end ManagedDatabase

section Registry

variable {σ : Type}

/-- A database with the adapter of its storage. -/
structure DatabaseEntry (σ : Type) where
  database : ManagedDatabase
  storage : Option σ

structure DatabaseRegistry (σ : Type) where
  defaultDatabaseId : String
  entries : OrdMap String (DatabaseEntry σ)

namespace DatabaseRegistry

def new (defaultDatabase : ManagedDatabase) (defaultStorage : σ) : DatabaseRegistry σ where
  defaultDatabaseId := defaultDatabase.databaseId
  entries := OrdMap.empty.insert defaultDatabase.databaseId ⟨defaultDatabase, some defaultStorage⟩

def contains (registry : DatabaseRegistry σ) (databaseId : String) : Bool :=
  (registry.entries.get? databaseId).isSome

def alreadyRegistered (databaseId : String) : AppError :=
  .conflict ("database `" ++ databaseId ++ "` is already registered")

def register (registry : DatabaseRegistry σ) (database : ManagedDatabase) (storage : Option σ) :
    AppResult (DatabaseRegistry σ) := do
  rejectIf (registry.contains database.databaseId = true) (alreadyRegistered database.databaseId)
  .ok { registry with
    entries := registry.entries.insert database.databaseId ⟨database, storage⟩ }

/-- The database of an id, or the default one, with its storage. -/
def resolve (registry : DatabaseRegistry σ) (databaseId : Option String) :
    AppResult (ManagedDatabase × σ) := do
  let resolvedId := databaseId.getD registry.defaultDatabaseId
  let entry ← okOr (.notFound ("database `" ++ resolvedId ++ "` was not found"))
    (registry.entries.get? resolvedId)
  rejectIf (entry.database.status ≠ .ready) (.conflict ("database `" ++ resolvedId ++
    "` is not ready: " ++ (entry.database.failure.map (·.message)).getD
      "bootstrap has not completed successfully"))
  let storage ← okOr (.internal ("database `" ++ resolvedId ++
    "` is ready but no storage adapter is attached")) entry.storage
  .ok (entry.database, storage)

end DatabaseRegistry

end Registry

end Evobase
