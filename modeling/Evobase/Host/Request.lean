import Evobase.Protocol.Wire
import Evobase.Store.Execute
import Evobase.Host.Access

/-!
# Requests to the host and its refusals

A request is refused with a code, a fixed message and at most the name of a field. An error of
the store is told to a client as one of the six codes; what it says about the store stays
inside.
-/

namespace Evobase

open Foundation

inductive Method where
  | get
  | post
  | options
  | unrouted
deriving DecidableEq, Repr

/-- A request as the router sees it: the decoded segments of its path, the length of its URI,
its headers in order and its body, when there is one that could be read. The characters of a
header stand for its bytes. -/
structure HttpRequest where
  method : Method
  path : List String
  query : Option String
  uriBytes : Nat
  headers : List (String × String)
  body : Option (List UInt8)

structure HttpReply where
  status : Nat
  payload : List UInt8
deriving DecidableEq

structure ApiFailure where
  status : Nat
  code : ErrorCodeDto
  message : String
  field : Option String
deriving DecidableEq

namespace ApiFailure

def denied : ApiFailure := ⟨403, .denied, "Access denied", none⟩
def validation : ApiFailure := ⟨400, .validation, "Invalid request", none⟩
def unsupported : ApiFailure := ⟨400, .unsupported, "Unsupported request", none⟩
def conflict : ApiFailure := ⟨409, .conflict, "Revision or intent conflict", none⟩
def notFound : ApiFailure := ⟨404, .notFound, "Receipt unavailable", none⟩
def internal : ApiFailure := ⟨500, .internal, "Operation unavailable", none⟩

def validationField (field : Option FieldId) : ApiFailure :=
  { validation with field := field.map Identity.text }

def commandError : CommandError → ApiFailure
  | .authority _ | .policy _ => denied
  | .unknownCommand _ => unsupported
  | .invalidInput field _ => validationField field
  | .immutableField field | .guardFailed field => validationField (some field)
  | .kernel (.wrongType _ field _) | .kernel (.required _ field)
  | .kernel (.constraintViolation _ field _) | .kernel (.invalidStateValue _ field _) =>
      validationField (some field)
  | .invalidTransition _ _ | .revisionRequired | .kernel _ => validation

def storage : StoreError → ApiFailure
  | .scopeMismatch | .authority _ | .bindingMismatch | .authorityChanged => denied
  | .conflict _ _ | .intentConflict => conflict
  | .command error => commandError error
  | .appNotFound => notFound
  | _ => internal

def toDto (failure : ApiFailure) : ApiErrorDto :=
  ⟨apiVersionNumber, failure.code, failure.message, failure.field⟩

def unencoded : String :=
  "\x7b\"api_version\":1,\"code\":\"internal\",\"message\":\"Operation unavailable\",\"field\":null\x7d"

def intoResponse (failure : ApiFailure) : HttpReply where
  status := failure.status
  payload := match Wire.encode failure.toDto with
    | .ok bytes => bytes
    | .error _ => Json.utf8 unencoded.toList

theorem status_storage_ge (error : StoreError) : 400 ≤ (storage error).status := by
  cases error with
  | command error =>
      cases error with
      | kernel error => cases error <;> simp [storage, commandError, validationField, validation]
      | _ => simp [storage, commandError, validationField, validation, denied, unsupported]
  | _ => simp [storage, denied, conflict, notFound, internal]

theorem eq_appNotFound_of_status {error : StoreError} (h : (storage error).status = 404) :
    error = .appNotFound := by
  cases error with
  | appNotFound => rfl
  | command error =>
      cases error with
      | kernel error => cases error <;> simp [storage, commandError, validationField, validation] at h
      | _ => simp [storage, commandError, validationField, validation, denied, unsupported] at h
  | _ => simp [storage, denied, conflict, internal] at h

end ApiFailure

namespace HttpRequest

def getAll (request : HttpRequest) (name : String) : List String :=
  (request.headers.filter fun header => header.1 = name).map Prod.snd

def toStr (value : String) : Option String :=
  if value.toList.all fun c => (32 ≤ c.toNat && c.toNat < 127) || c = '\t' then some value else none

/-- The token of a request that names exactly one. -/
def credential (request : HttpRequest) : Except ApiFailure String :=
  match request.getAll "authorization" with
  | [value] => do
      let value ← okOr .denied (toStr value)
      let token ← okOr .denied (stripPrefix? "Bearer " value)
      rejectIf (token.utf8ByteSize ≠ 64) .denied
      .ok token
  | _ => .error .denied

/-- The origin of a request, when it names one. -/
def origin (request : HttpRequest) : Except ApiFailure (Option String) :=
  match (request.getAll "origin").head? with
  | none => .ok none
  | some value => do
      let value ← okOr .denied (toStr value)
      .ok (some value)

def noQuery (request : HttpRequest) : Except ApiFailure Unit :=
  rejectIf (request.query ≠ none) .unsupported

end HttpRequest

end Evobase
