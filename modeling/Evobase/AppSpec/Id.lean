import Evobase.Foundation.Bounded
import Evobase.Foundation.OrdMap
import Mathlib.Data.String.Basic
import Mathlib.Tactic

/-!
# Identities and scopes

An identity of a definition or of a record is a bounded ASCII text with the stem of
its kind. The eight kinds differ in their stem and in their name only, so they are
one type with the kind as parameter. Actors and roles are identities of the host and
have a grammar of their own.
-/

namespace Evobase

open Foundation

/-- The kinds of identities of a definition. -/
inductive IdKind where
  | app
  | table
  | field
  | record
  | constraint
  | command
  | stateMachine
  | event
deriving DecidableEq, Repr

/-- The text every identity of the kind starts with. -/
def IdKind.stem : IdKind → String
  | .app => "app_"
  | .table => "tbl_"
  | .field => "fld_"
  | .record => "rec_"
  | .constraint => "constraint_"
  | .command => "cmd_"
  | .stateMachine => "machine_"
  | .event => "event_"

/-- The name of the kind in an error. -/
def IdKind.name : IdKind → String
  | .app => "app"
  | .table => "table"
  | .field => "field"
  | .record => "record"
  | .constraint => "constraint"
  | .command => "command"
  | .stateMachine => "state machine"
  | .event => "event"

def isIdChar (c : Char) : Bool := c.isAlphanum || c == '_' || c == '-'

def startsWith (text stem : String) : Bool := stem.toList.isPrefixOf text.toList

def stripPrefix? (stem text : String) : Option String :=
  if startsWith text stem then some (.ofList (text.toList.drop stem.toList.length)) else none

theorem stripPrefix?_eq_some {stem text rest : String} :
    stripPrefix? stem text = some rest ↔ text = stem ++ rest := by
  unfold stripPrefix? startsWith
  constructor
  · intro h
    split_ifs at h with hstem
    obtain ⟨l, hl⟩ := List.isPrefixOf_iff_prefix.1 hstem
    obtain rfl := Option.some.inj h
    rw [← String.toList_inj, String.toList_append, String.toList_ofList, ← hl, List.drop_left]
  · rintro rfl
    rw [if_pos (List.isPrefixOf_iff_prefix.2 (by simp)), String.toList_append, List.drop_left,
      String.ofList_toList]

def endsWith (text stem : String) : Bool := stem.toList.isSuffixOf text.toList

def IdKind.accepts (kind : IdKind) (text : String) : Bool :=
  text.utf8ByteSize ≤ 80 && startsWith text kind.stem &&
    text.utf8ByteSize ≠ kind.stem.utf8ByteSize && text.toList.all isIdChar

/-- An identity of a kind. -/
structure Identity (kind : IdKind) where
  text : String
  wellFormed : kind.accepts text = true
deriving Repr

namespace Identity

variable {kind : IdKind}

@[ext] theorem ext_text {a b : Identity kind} (h : a.text = b.text) : a = b := by
  cases a; cases b; simpa using h

theorem text_injective : Function.Injective (text : Identity kind → String) :=
  fun _ _ h => ext_text h

instance : LinearOrder (Identity kind) := LinearOrder.lift' text text_injective

instance : LawfulBEq (Identity kind) := inferInstance

theorem text_lt_text {a b : Identity kind} : a.text < b.text ↔ a < b := Iff.rfl

def ofText? (kind : IdKind) (text : String) : Option (Identity kind) :=
  if h : kind.accepts text = true then some ⟨text, h⟩ else none

@[simp] theorem ofText?_text (a : Identity kind) : ofText? kind a.text = some a := by
  rw [ofText?, dif_pos a.wellFormed]

theorem ofText?_eq_some {text : String} {a : Identity kind} :
    ofText? kind text = some a ↔ a.text = text := by
  constructor
  · intro h
    unfold ofText? at h
    split_ifs at h with hw
    exact (Option.some.inj h) ▸ rfl
  · rintro rfl
    exact ofText?_text a

end Identity

abbrev AppId := Identity .app
abbrev TableId := Identity .table
abbrev FieldId := Identity .field
abbrev RecordId := Identity .record
abbrev ConstraintId := Identity .constraint
abbrev CommandId := Identity .command
abbrev StateMachineId := Identity .stateMachine
abbrev EventId := Identity .event

def acceptsTenant (text : String) : Bool :=
  text.utf8ByteSize ≠ 0 && text.utf8ByteSize ≤ 80 && text.toList.all isIdChar

/-- A tenant's app. A scope names data and grants nothing. -/
structure Scope where
  tenantId : String
  appId : AppId
  wellFormed : acceptsTenant tenantId = true
deriving DecidableEq, Repr

@[ext] theorem Scope.ext_parts {a b : Scope} (htenant : a.tenantId = b.tenantId)
    (happ : a.appId = b.appId) : a = b := by
  cases a; cases b; simp_all

def Scope.ofParts? (tenantId : String) (appId : AppId) : Option Scope :=
  if h : acceptsTenant tenantId = true then some ⟨tenantId, appId, h⟩ else none

@[simp] theorem Scope.ofParts?_parts (s : Scope) : ofParts? s.tenantId s.appId = some s := by
  rw [ofParts?, dif_pos s.wellFormed]

/-- The grammar of an identity of the host: the stem, at least one more character, at
most 96 bytes, ASCII letters, digits and underscores. -/
def boundedId (text stem : String) : Bool :=
  text.utf8ByteSize ≤ 96 && stem.utf8ByteSize < text.utf8ByteSize && startsWith text stem &&
    text.toList.all fun c => c.isAlphanum || c == '_'

/-- A verified actor. -/
structure ActorId where
  text : String
  wellFormed : boundedId text "actor_" = true
deriving DecidableEq, Repr

@[ext] theorem ActorId.ext_text {a b : ActorId} (h : a.text = b.text) : a = b := by
  cases a; cases b; simpa using h

/-- A role of the host. -/
structure RoleId where
  text : String
  wellFormed : boundedId text "role_" = true
deriving Repr

@[ext] theorem RoleId.ext_text {a b : RoleId} (h : a.text = b.text) : a = b := by
  cases a; cases b; simpa using h

instance : LinearOrder RoleId :=
  LinearOrder.lift' RoleId.text fun _ _ h => RoleId.ext_text h

def RoleId.ofText? (text : String) : Option RoleId :=
  if h : boundedId text "role_" = true then some ⟨text, h⟩ else none

@[simp] theorem RoleId.ofText?_text (r : RoleId) : ofText? r.text = some r := by
  rw [ofText?, dif_pos r.wellFormed]

end Evobase
