import Evobase.Core.Rest
import Evobase.Foundation.QueryBuilder

/-!
# Statements for tables

The storage writes a statement with a builder: text is pushed as it is, a value is bound to the
next numbered placeholder. Sending a statement to the database is not part of the model.
-/

namespace Evobase

open Foundation

/-- A value bound to a placeholder. -/
inductive BindValue where
  | text (value : String)
  | int (value : I64)
  | json (value : Json)

abbrev StatementBuilder := QueryBuilder BindValue

namespace PostgresStorage

/-- The columns of the rows to insert, in order. A payload keeps its names in order. -/
def validateInsertRows : List PayloadRow → AppResult (List String)
  | [] => .error (.badRequest "insert payload must contain at least one object")
  | firstRow :: rows => do
      rejectIf (firstRow.keys = []) (.badRequest "insert payload objects cannot be empty")
      each validateIdentifier firstRow.keys
      rejectIf (∃ row ∈ rows, row.keys ≠ firstRow.keys)
        (.badRequest "all insert objects must share the same shape")
      .ok firstRow.keys

def validatePatch (patch : PayloadRow) : AppResult (List String) := do
  rejectIf (patch.keys = []) (.badRequest "update payload cannot be empty")
  each validateIdentifier patch.keys
  .ok patch.keys

def pushSelectList (query : StatementBuilder) : SelectList → StatementBuilder
  | .all => query.push "t.*"
  | .columns names => query.pushSeparated ", "
      (fun query column => (query.push "t.").push (quotedIdentifier column)) names

def pushColumns (query : StatementBuilder) (columns : List String) (tableAlias : Option String) :
    StatementBuilder :=
  query.pushSeparated ", " (fun query column =>
    (match tableAlias with
      | some tableAlias => (query.push tableAlias).push "."
      | none => query).push (quotedIdentifier column)) columns

def pushTable (query : StatementBuilder) (table : QualifiedTable) : StatementBuilder :=
  query.push table.quoted

def pushOrder (query : StatementBuilder) (order : OrderBy) : StatementBuilder :=
  ((query.push "t.").push (quotedIdentifier order.column)).push
    (if order.descending then " DESC" else " ASC")

def pushOrderBy (query : StatementBuilder) (orderBy : List OrderBy) : StatementBuilder :=
  if orderBy = [] then query
  else (query.push " ORDER BY ").pushSeparated ", " pushOrder orderBy

/-- A pattern is compared with the text of a column, any other value with what the database
reads it as for the column. -/
def pushFilter (table : QualifiedTable) (tableAlias : String) (query : StatementBuilder)
    (filter : Filter) : StatementBuilder :=
  let query := ((query.push tableAlias).push ".").push (quotedIdentifier filter.column)
  match filter.operator with
  | .like | .ilike =>
      (((query.push "::text ").push filter.operator.sqlOperator).push " ").pushBind
        (.text filter.value)
  | operator =>
      let query := ((query.push " ").push operator.sqlOperator).push " (SELECT x."
      let query := (query.push (quotedIdentifier filter.column)).push
        " FROM jsonb_populate_record(NULL::"
      let query := ((query.push table.quoted).push ", jsonb_build_object(").pushBind
        (.text filter.column)
      ((query.push ", to_jsonb(").pushBind (.text filter.value)).push "))) AS x)"

def pushFilters (query : StatementBuilder) (table : QualifiedTable) (filters : List Filter)
    (tableAlias : String) : StatementBuilder :=
  if filters = [] then query
  else (query.push " WHERE ").pushSeparated " AND " (pushFilter table tableAlias) filters

/-- A bound on the rows, if there is one. -/
def pushBound (query : StatementBuilder) (word : String) : Option I64 → StatementBuilder
  | some bound => (query.push word).pushBind (.int bound)
  | none => query

def selectRows (request : TableSelect) : StatementBuilder :=
  let query := QueryBuilder.new "select to_jsonb(t) as row from (select "
  let query := (pushSelectList query request.select).push " from "
  let query := (pushTable query request.table).push " as t"
  let query := pushFilters query request.table request.filters "t"
  let query := pushOrderBy query request.orderBy
  let query := pushBound query " limit " request.limit
  (pushBound query " offset " request.offset).push ") as t"

def insertRows (request : TableInsert) : AppResult StatementBuilder := do
  let columns ← validateInsertRows request.rows
  let payload := Json.arr (request.rows.map fun row => .obj row.entries)
  let query := QueryBuilder.new "with input_rows as (select "
  let query := (pushColumns query columns none).push " from jsonb_populate_recordset(NULL::"
  let query := ((pushTable query request.table).push ", ").pushBind (.json payload)
  let query := (pushTable (query.push ")) insert into ") request.table).push " as inserted ("
  let query := (pushColumns query columns none).push ") select "
  .ok ((pushColumns query columns none).push " from input_rows returning to_jsonb(inserted.*)")

/-- The statement that updates rows, up to its filters. -/
def pushUpdate (table : QualifiedTable) (columns : List String) (payload : Json) : StatementBuilder :=
  let query := QueryBuilder.new "with patch as (select "
  let query := (pushColumns query columns none).push " from jsonb_populate_record(NULL::"
  let query := ((pushTable query table).push ", ").pushBind (.json payload)
  let query := (pushTable (query.push ")) update ") table).push " as t set "
  let query := query.pushSeparated ", " (fun query column =>
    ((query.push (quotedIdentifier column)).push " = patch.").push (quotedIdentifier column)) columns
  query.push " from patch"

def updateRows (request : TableUpdate) : AppResult StatementBuilder := do
  let columns ← validatePatch request.patch
  let query := pushUpdate request.table columns (.obj request.patch.entries)
  .ok ((pushFilters query request.table request.filters "t").push " returning to_jsonb(t.*)")

def deleteRows (request : TableDelete) : StatementBuilder :=
  let query := pushTable (QueryBuilder.new "delete from ") request.table
  (pushFilters (query.push " as t") request.table request.filters "t").push
    " returning to_jsonb(t.*)"

end PostgresStorage

end Evobase
