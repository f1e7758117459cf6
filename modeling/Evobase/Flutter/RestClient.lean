import Evobase.Gateway.Statement

/-!
# The REST client for Flutter

The client writes the parameters of a query into one map, in the order of their assignment, and
the records and values of a change into the envelope of a body. A map lists its entries in the
order of their first assignment. How the entries of a map are encoded as a query is a parameter.
-/

namespace Evobase

open Foundation

/-- An assignment to a key of a map: it keeps its place when it is there already. -/
def assign {α : Type} (map : List (String × α)) (key : String) (value : α) : List (String × α) :=
  if key ∈ map.map (·.1) then map.map fun entry => if entry.1 = key then (key, value) else entry
  else map ++ [(key, value)]

structure QueryParams where
  select : Option (List String)
  filter : Option (List (String × String))
  order : Option (List String)
  limit : Option I64
  offset : Option I64

/-- An assignment of a value, if there is one. -/
def assignSome (map : List (String × String)) (key : String) :
    Option String → List (String × String)
  | some value => assign map key value
  | none => map

def joined : Option (List String) → Option String
  | none | some [] => none
  | some names => some (",".intercalate names)

def QueryParams.toQueryMap (params : QueryParams) : List (String × String) :=
  let map := assignSome [] "select" (joined params.select)
  let map := (params.filter.getD []).foldl (fun map entry => assign map entry.1 entry.2) map
  let map := assignSome map "order" (joined params.order)
  let map := assignSome map "limit" (params.limit.map fun limit => toString limit.val)
  assignSome map "offset" (params.offset.map fun offset => toString offset.val)

/-- The columns to return are named in the body, if there are any. -/
def returningEntry : Option (List String) → List (String × Json)
  | none | some [] => []
  | some names => [("returning", .arr (names.map .str))]

structure InsertBody where
  records : List (List (String × Json))
  returning : Option (List String)

def InsertBody.toJson (body : InsertBody) : Json :=
  .obj (("records", .arr (body.records.map .obj)) :: returningEntry body.returning)

structure UpdateBody where
  set : List (String × Json)
  returning : Option (List String)

def UpdateBody.toJson (body : UpdateBody) : Json :=
  .obj (("set", .obj body.set) :: returningEntry body.returning)

namespace RestClient

variable (encode : List (String × String) → String)

/-- The raw query of a request; there is none without parameters. -/
def rawQuery (params : Option QueryParams) : Option String :=
  match params.map QueryParams.toQueryMap with
  | none | some [] => none
  | some entries => some (encode entries)

def query (params : Option QueryParams) : RestRequest := .select (rawQuery encode params)

def insert (body : InsertBody) : RestRequest := .insert body.toJson

def update (body : UpdateBody) (params : Option QueryParams) : RestRequest :=
  .update (rawQuery encode params) body.toJson

def delete (params : Option QueryParams) : RestRequest := .delete (rawQuery encode params)

end RestClient

/-- An entry of an order names a column, or a column and a direction. -/
def OrderBy.IsEntry (order : OrderBy) (entry : String) : Prop :=
  IsIdentifier order.column ∧
    if order.descending then entry = order.column ++ ".desc"
    else entry = order.column ∨ entry = order.column ++ ".asc"

def IsColumn (name : String) : Prop := IsIdentifier name ∧ isReserved name = false

/-- Every column can stand in a query, no column is filtered twice, and no filter is empty. -/
structure QueryParams.Valid (params : QueryParams) : Prop where
  select : ∀ name ∈ params.select.getD [], IsColumn name
  filter : ∀ entry ∈ params.filter.getD [], IsColumn entry.1 ∧ entry.2 ≠ ""
  nodup : ((params.filter.getD []).map (·.1)).Nodup
  order : ∀ entry ∈ params.order.getD [], ∃ column, IsColumn column ∧
    (entry = column ∨ ∃ direction, entry = column ++ "." ++ direction)

/-- What the client means by its parameters: the columns, one equality for each filter, the
order and the bounds. -/
structure QueryParams.Asks (params : QueryParams) (table : QualifiedTable)
    (selection : TableSelect) : Prop where
  table : selection.table = table
  select : selection.select =
    if params.select.getD [] = [] then .all else .columns (params.select.getD [])
  filters : selection.filters =
    (params.filter.getD []).map fun entry => ⟨entry.1, .eq, entry.2⟩
  orderBy : List.Forall₂ (fun entry order => OrderBy.IsEntry order entry)
    (params.order.getD []) selection.orderBy
  limit : selection.limit = params.limit
  offset : selection.offset = params.offset

def selectionOf (table : QualifiedTable) (filters : List Filter) : TableSelect :=
  ⟨table, .all, filters, [], none, none⟩

section Understood

variable (decode : String → List (String × String)) (path : String) (table : QualifiedTable)

def UnderstoodQuery (params : QueryParams) (request : RestRequest) : Prop :=
  ∃ parsed, request.parse decode path = .ok (.select parsed) ∧ params.Asks table parsed

/-- The gateway accepts the insertion and reads the client's records. -/
def UnderstoodInsert (body : InsertBody) (request : RestRequest) : Prop :=
  ∃ parsed, request.parse decode path = .ok (.insert parsed) ∧ parsed.table = table ∧
    parsed.rows = body.records.map OrdMap.ofList

/-- The gateway accepts the update and reads the client's values for the rows that it means. -/
def UnderstoodUpdate (params : QueryParams) (body : UpdateBody) (request : RestRequest) : Prop :=
  ∃ parsed, request.parse decode path = .ok (.update parsed) ∧
    params.Asks table (selectionOf parsed.table parsed.filters) ∧
    parsed.patch = OrdMap.ofList body.set

/-- The gateway accepts the deletion and reads the rows that the client means. -/
def UnderstoodDelete (params : QueryParams) (request : RestRequest) : Prop :=
  ∃ parsed, request.parse decode path = .ok (.delete parsed) ∧
    params.Asks table (selectionOf parsed.table parsed.filters)

end Understood

end Evobase
