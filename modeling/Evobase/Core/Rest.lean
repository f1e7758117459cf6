import Evobase.Core.Error
import Evobase.Foundation.Json
import Evobase.Foundation.OrdMap
import Evobase.Foundation.Text

/-!
# Requests for tables

A table path names a table and perhaps its schema. Names of schemas, tables and columns are
identifiers: they reach the text of a statement between double quotes, and an identifier holds
no quote.
-/

namespace Evobase

open Foundation

structure QualifiedTable where
  schema : Option String
  table : String
deriving DecidableEq, Repr

inductive SelectList where
  | all
  | columns (names : List String)
deriving DecidableEq, Repr

inductive FilterOperator where
  | eq
  | neq
  | gt
  | gte
  | lt
  | lte
  | like
  | ilike
deriving DecidableEq, Repr

structure Filter where
  column : String
  operator : FilterOperator
  value : String
deriving DecidableEq, Repr

structure OrderBy where
  column : String
  descending : Bool
deriving DecidableEq, Repr

abbrev PayloadRow := OrdMap String Json

structure TableSelect where
  table : QualifiedTable
  select : SelectList
  filters : List Filter
  orderBy : List OrderBy
  limit : Option I64
  offset : Option I64

structure TableInsert where
  table : QualifiedTable
  rows : List PayloadRow

structure TableUpdate where
  table : QualifiedTable
  patch : PayloadRow
  filters : List Filter

structure TableDelete where
  table : QualifiedTable
  filters : List Filter

def isIdentifierStart (c : Char) : Bool := c.isAlpha || c = '_'

def isIdentifierPart (c : Char) : Bool := c.isAlphanum || c = '_'

/-- The text is a letter or an underscore, then letters, digits and underscores. -/
def IsIdentifier (text : String) : Prop :=
  ∃ first rest, text.toList = first :: rest ∧ isIdentifierStart first = true ∧
    ∀ c ∈ rest, isIdentifierPart c = true

def validateIdentifier (identifier : String) : AppResult Unit :=
  match identifier.toList with
  | [] => .error (.badRequest "identifier cannot be empty")
  | first :: rest => do
      rejectIf (isIdentifierStart first = false)
        (.badRequest ("identifier `" ++ identifier ++ "` must start with a letter or underscore"))
      rejectIf (rest.all isIdentifierPart = false)
        (.badRequest ("identifier `" ++ identifier ++ "` contains unsupported characters"))

def quotedIdentifier (identifier : String) : String := "\"" ++ identifier ++ "\""

theorem validateIdentifier_eq_ok_iff {identifier : String} :
    validateIdentifier identifier = .ok () ↔ IsIdentifier identifier := by
  unfold validateIdentifier IsIdentifier
  cases identifier.toList with
  | nil => simp
  | cons first rest =>
      simp only [bind_eq_ok, rejectIf_eq_ok, Bool.not_eq_false, List.all_eq_true, List.cons.injEq]
      constructor
      · rintro ⟨-, hfirst, hrest⟩
        exact ⟨first, rest, ⟨rfl, rfl⟩, hfirst, hrest⟩
      · rintro ⟨_, _, ⟨rfl, rfl⟩, hfirst, hrest⟩
        exact ⟨(), hfirst, hrest⟩

theorem isIdentifier_of_toBool {identifier : String}
    (h : (validateIdentifier identifier).toBool = true) : IsIdentifier identifier := by
  obtain ⟨_, hvalid⟩ := exists_eq_ok h
  exact validateIdentifier_eq_ok_iff.1 hvalid

namespace QualifiedTable

/-- A table path: the name of a table, or of a schema and a table. -/
def parse (input : String) : AppResult QualifiedTable :=
  match Text.split '.' input with
  | [table] => do
      validateIdentifier table
      .ok ⟨none, table⟩
  | [schema, table] => do
      validateIdentifier schema
      validateIdentifier table
      .ok ⟨some schema, table⟩
  | _ => .error (.badRequest
      ("invalid table path `" ++ input ++ "`; expected `table` or `schema.table`"))

def quoted (table : QualifiedTable) : String :=
  match table.schema with
  | some schema => quotedIdentifier schema ++ "." ++ quotedIdentifier table.table
  | none => quotedIdentifier table.table

def Identified (table : QualifiedTable) : Prop :=
  (∀ schema ∈ table.schema, IsIdentifier schema) ∧ IsIdentifier table.table

theorem identified_of_parse {input : String} {table : QualifiedTable}
    (h : parse input = .ok table) : table.Identified := by
  unfold parse at h
  split at h
  · obtain ⟨_, hname, htable⟩ := bind_eq_ok.1 h
    obtain rfl := Except.ok.inj htable
    exact ⟨fun _ hschema => (nomatch hschema), validateIdentifier_eq_ok_iff.1 hname⟩
  · obtain ⟨_, hschema, h⟩ := bind_eq_ok.1 h
    obtain ⟨_, hname, htable⟩ := bind_eq_ok.1 h
    obtain rfl := Except.ok.inj htable
    refine ⟨?_, validateIdentifier_eq_ok_iff.1 hname⟩
    intro schema hmem
    obtain rfl := Option.mem_some_iff.1 hmem
    exact validateIdentifier_eq_ok_iff.1 hschema
  · cases h

end QualifiedTable

namespace FilterOperator

def parse : String → AppResult FilterOperator
  | "eq" => .ok .eq
  | "neq" => .ok .neq
  | "gt" => .ok .gt
  | "gte" => .ok .gte
  | "lt" => .ok .lt
  | "lte" => .ok .lte
  | "like" => .ok .like
  | "ilike" => .ok .ilike
  | other => .error (.badRequest ("unsupported filter operator `" ++ other ++ "`"))

def sqlOperator : FilterOperator → String
  | .eq => "="
  | .neq => "!="
  | .gt => ">"
  | .gte => ">="
  | .lt => "<"
  | .lte => "<="
  | .like => "LIKE"
  | .ilike => "ILIKE"

end FilterOperator

end Evobase
