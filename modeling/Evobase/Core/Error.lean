import Evobase.Foundation.Outcome

/-!
# Errors of the services
-/

namespace Evobase

open Foundation

inductive AppError where
  | config (message : String)
  | badRequest (message : String)
  | unauthorized
  | notFound (message : String)
  | conflict (message : String)
  | database (message : String)
  | internal (message : String)
deriving DecidableEq, Repr

abbrev AppResult (α : Type) := Except AppError α

/-- The text of an error; what a database or the service says of itself stays inside. -/
def AppError.text : AppError → String
  | config message => "configuration error: " ++ message
  | badRequest message => "bad request: " ++ message
  | unauthorized => "unauthorized"
  | notFound message => "not found: " ++ message
  | conflict message => "conflict: " ++ message
  | database _ => "database error"
  | internal _ => "internal server error"

end Evobase
