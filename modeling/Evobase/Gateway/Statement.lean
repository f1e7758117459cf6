import Evobase.Db.Statement
import Evobase.Gateway.Rest

/-!
# From requests to statements

A request for a table is parsed, and the storage writes the statement for it. Its text depends on
the shape of the request: the table, the columns, the operators, the directions, which bounds
there are, and the names of the payload. A change is restricted by every filter of its query.

`statement_exact` joins the parser of the gateway and the writer of the storage: the text and the
bound values of every statement, and the shape that determines the text.
-/

namespace Evobase

open Foundation QueryBuilder PostgresStorage

/-- A request for a table as it comes. -/
inductive RestRequest where
  | select (rawQuery : Option String)
  | insert (body : Json)
  | update (rawQuery : Option String) (body : Json)
  | delete (rawQuery : Option String)

/-- A request for a table, parsed. -/
inductive TableRequest where
  | select (request : TableSelect)
  | insert (request : TableInsert)
  | update (request : TableUpdate)
  | delete (request : TableDelete)

/-- What the text of a statement depends on. -/
inductive RequestShape where
  | select (table : QualifiedTable) (select : SelectList)
      (filters : List (String × FilterOperator)) (orderBy : List OrderBy) (limit offset : Bool)
  | insert (table : QualifiedTable) (rows : List (List String))
  | update (table : QualifiedTable) (patch : List String) (filters : List (String × FilterOperator))
  | delete (table : QualifiedTable) (filters : List (String × FilterOperator))
deriving DecidableEq

def TableRequest.table : TableRequest → QualifiedTable
  | .select request => request.table
  | .insert request => request.table
  | .update request => request.table
  | .delete request => request.table

def TableRequest.shape : TableRequest → RequestShape
  | .select request => .select request.table request.select (filterShape request.filters)
      request.orderBy request.limit.isSome request.offset.isSome
  | .insert request => .insert request.table (request.rows.map OrdMap.keys)
  | .update request => .update request.table request.patch.keys (filterShape request.filters)
  | .delete request => .delete request.table (filterShape request.filters)

def TableRequest.statement : TableRequest → AppResult StatementBuilder
  | .select request => .ok (selectRows request)
  | .insert request => insertRows request
  | .update request => updateRows request
  | .delete request => .ok (deleteRows request)

/-- Two requests of one shape have statements of one text. -/
theorem TableRequest.alike {request request' : TableRequest} {query query' : StatementBuilder}
    (hshape : request.shape = request'.shape) (h : request.statement = .ok query)
    (h' : request'.statement = .ok query') : Alike query query' := by
  cases request <;> cases request' <;> simp only [shape, RequestShape.select.injEq,
    RequestShape.insert.injEq, RequestShape.update.injEq, RequestShape.delete.injEq,
    reduceCtorEq] at hshape
  case select.select =>
    obtain ⟨htable, hselect, hfilters, horderBy, hlimit, hoffset⟩ := hshape
    obtain rfl := Except.ok.inj h
    obtain rfl := Except.ok.inj h'
    exact alike_selectRows htable hselect hfilters horderBy hlimit hoffset
  case insert.insert => exact alike_insertRows hshape.1 hshape.2 h h'
  case update.update => exact alike_updateRows hshape.1 hshape.2.1 hshape.2.2 h h'
  case delete.delete =>
    obtain rfl := Except.ok.inj h
    obtain rfl := Except.ok.inj h'
    exact alike_deleteRows hshape.1 hshape.2

section Requests

variable (decode : String → List (String × String))

def RestRequest.parse (table : String) : RestRequest → AppResult TableRequest
  | .select rawQuery => do
      let request ← parseSelectRequest decode table rawQuery
      .ok (.select request)
  | .insert body => do
      let request ← parseInsertRequest table body
      .ok (.insert request)
  | .update rawQuery body => do
      let request ← parseUpdateRequest decode table rawQuery body
      .ok (.update request)
  | .delete rawQuery => do
      let request ← parseDeleteRequest decode table rawQuery
      .ok (.delete request)

def RestRequest.restriction : RestRequest → Option (Option String)
  | .update rawQuery _ | .delete rawQuery => some rawQuery
  | _ => none

end Requests

/-- The columns of a selection are identifiers. -/
structure TableSelect.Identified (request : TableSelect) : Prop where
  table : request.table.Identified
  select : ∀ names, request.select = .columns names → ∀ c ∈ names, IsIdentifier c
  filters : ∀ f ∈ request.filters, IsIdentifier f.column
  orderBy : ∀ order ∈ request.orderBy, IsIdentifier order.column

section Requests

variable {decode : String → List (String × String)} {table : String} {rawQuery : Option String}

theorem TableSelect.Identified.parameter {request request' : TableSelect} (h : request.Identified)
    {parameter : String × String} (hparameter : request.parameter parameter = .ok request') :
    request'.Identified := by
  unfold TableSelect.parameter at hparameter
  split at hparameter <;> obtain ⟨parsed, hparsed, hrequest⟩ := bind_eq_ok.1 hparameter <;>
    obtain rfl := Except.ok.inj hrequest
  · refine ⟨h.table, ?_, h.filters, h.orderBy⟩
    rintro names rfl
    exact isIdentifier_of_parseSelectList hparsed
  · exact ⟨h.table, h.select, h.filters, isIdentifier_of_parseOrderBy hparsed⟩
  · exact ⟨h.table, h.select, h.filters, h.orderBy⟩
  · exact ⟨h.table, h.select, h.filters, h.orderBy⟩
  · refine ⟨h.table, h.select, fun filter hfilter => ?_, h.orderBy⟩
    rcases List.mem_append.1 hfilter with hfilter | hfilter
    · exact h.filters filter hfilter
    · obtain rfl := List.mem_singleton.1 hfilter
      exact isIdentifier_of_parseColumnFilter hparsed

theorem identified_of_parseSelectRequest {request : TableSelect}
    (h : parseSelectRequest decode table rawQuery = .ok request) : request.Identified := by
  obtain ⟨parsed, htable, h⟩ := bind_eq_ok.1 h
  refine inv_of_foldlM (fun _ request => request.Identified) h ?_ ?_
  · exact ⟨QualifiedTable.identified_of_parse htable, fun _ hall => (nomatch hall), by simp, by simp⟩
  · intro _ parameter _ _ request request' hrequest hparameter
    exact hrequest.parameter hparameter

theorem forall₂_of_parseFilters {filters : List Filter}
    (h : parseFilters decode rawQuery = .ok filters) :
    List.Forall₂ (fun parameter filter => parseColumnFilter parameter.1 parameter.2 = .ok filter)
      (criteria decode rawQuery) filters :=
  mapM_eq_ok_iff.1 ((parseFilters_eq_mapM decode rawQuery).symm.trans h)

theorem isIdentifier_of_parseFilters {filters : List Filter}
    (h : parseFilters decode rawQuery = .ok filters) :
    ∀ filter ∈ filters, IsIdentifier filter.column := by
  intro filter hfilter
  rw [parseFilters_eq_mapM] at h
  obtain ⟨parameter, -, hparameter⟩ := exists_of_mem_mapM h hfilter
  exact isIdentifier_of_parseColumnFilter hparameter

theorem parseUpdateRequest_eq_ok {body : Json} {request : TableUpdate}
    (h : parseUpdateRequest decode table rawQuery body = .ok request) :
    QualifiedTable.parse table = .ok request.table ∧
      parseFilters decode rawQuery = .ok request.filters ∧ request.filters ≠ [] ∧
      ∃ members, body = .obj members ∧ request.patch = OrdMap.ofList members := by
  obtain ⟨parsed, htable, h⟩ := bind_eq_ok.1 h
  obtain ⟨filters, hfilters, h⟩ := bind_eq_ok.1 h
  obtain ⟨hne, h⟩ := rejectIf_bind_eq_ok.1 h
  split at h
  · obtain rfl := Except.ok.inj h
    exact ⟨htable, hfilters, hne, _, rfl, rfl⟩
  · cases h

theorem parseDeleteRequest_eq_ok {request : TableDelete}
    (h : parseDeleteRequest decode table rawQuery = .ok request) :
    QualifiedTable.parse table = .ok request.table ∧
      parseFilters decode rawQuery = .ok request.filters ∧ request.filters ≠ [] := by
  obtain ⟨parsed, htable, h⟩ := bind_eq_ok.1 h
  obtain ⟨filters, hfilters, h⟩ := bind_eq_ok.1 h
  obtain ⟨hne, h⟩ := rejectIf_bind_eq_ok.1 h
  obtain rfl := Except.ok.inj h
  exact ⟨htable, hfilters, hne⟩

/-- Every accepted request has a statement of admitted words and identifiers. -/
theorem RestRequest.written {request : RestRequest} {parsed : TableRequest}
    {query : StatementBuilder} (h : request.parse decode table = .ok parsed)
    (hquery : parsed.statement = .ok query) : Written statementWords query := by
  cases request with
  | select rawQuery =>
      obtain ⟨selection, hparse, hparsed⟩ := bind_eq_ok.1 h
      obtain rfl := Except.ok.inj hparsed
      obtain rfl := Except.ok.inj hquery
      have hidentified := identified_of_parseSelectRequest hparse
      exact written_selectRows hidentified.table hidentified.select hidentified.filters
        hidentified.orderBy
  | insert body =>
      obtain ⟨insertion, hparse, hparsed⟩ := bind_eq_ok.1 h
      obtain rfl := Except.ok.inj hparsed
      obtain ⟨name, htable, hparse⟩ := bind_eq_ok.1 hparse
      obtain ⟨rows, -, hinsertion⟩ := bind_eq_ok.1 hparse
      obtain rfl := Except.ok.inj hinsertion
      exact written_insertRows (QualifiedTable.identified_of_parse htable) hquery
  | update rawQuery body =>
      obtain ⟨update, hparse, hparsed⟩ := bind_eq_ok.1 h
      obtain rfl := Except.ok.inj hparsed
      obtain ⟨htable, hfilters, -⟩ := parseUpdateRequest_eq_ok hparse
      have hidentified := QualifiedTable.identified_of_parse htable
      obtain ⟨columns, hcolumns, hstatement⟩ := bind_eq_ok.1 hquery
      obtain rfl := Except.ok.inj hstatement
      have hhead := written_pushUpdate (.obj update.patch.entries) hidentified
        (isIdentifier_of_validatePatch hcolumns)
      exact (written_pushFilters (hhead.mono changeWords_subset) hidentified
        (isIdentifier_of_parseFilters hfilters)).pushWord (by decide)
  | delete rawQuery =>
      obtain ⟨deletion, hparse, hparsed⟩ := bind_eq_ok.1 h
      obtain rfl := Except.ok.inj hparsed
      obtain rfl := Except.ok.inj hquery
      obtain ⟨htable, hfilters, -⟩ := parseDeleteRequest_eq_ok hparse
      have hidentified := QualifiedTable.identified_of_parse htable
      exact (written_pushFilters ((written_delete hidentified).mono changeWords_subset) hidentified
        (isIdentifier_of_parseFilters hfilters)).pushWord (by decide)

end Requests

/-- The text has a `WHERE` clause with one conjunct for each parameter, at least one; what stands
before the clause holds no other. -/
def Restricted (table : QualifiedTable) (criteria : List (String × String)) (sql : String) : Prop :=
  criteria ≠ [] ∧ ∃ (head : StatementBuilder) (conjuncts : List String),
    sql = head.sql ++ " WHERE " ++ " AND ".intercalate conjuncts ++ " returning to_jsonb(t.*)" ∧
    Written changeWords head ∧
    List.Forall₂ (fun parameter conjunct => ∃ filter n,
      parseColumnFilter parameter.1 parameter.2 = .ok filter ∧
      conjunct = filter.conjunct table n) criteria conjuncts

section Requests

variable {decode : String → List (String × String)} {table : String} {rawQuery : Option String}

theorem restricted_pushFilters {target : QualifiedTable} {head : StatementBuilder}
    {filters : List Filter} (hhead : Written changeWords head) (hne : filters ≠ [])
    (hfilters : parseFilters decode rawQuery = .ok filters) :
    Restricted target (criteria decode rawQuery)
      ((pushFilters head target filters "t").push " returning to_jsonb(t.*)").sql := by
  have hforall := forall₂_of_parseFilters hfilters
  obtain ⟨conjuncts, hsql, hconjuncts⟩ := exists_sql_pushFilters target head hne
  refine ⟨?_, head, conjuncts, by rw [sql_push, hsql], hhead, ?_⟩
  · intro hempty
    rw [hempty] at hforall
    exact hne (List.forall₂_nil_left_iff.1 hforall)
  · refine forall₂_comp ?_ hforall hconjuncts
    rintro parameter filter conjunct hfilter ⟨n, hconjunct⟩
    exact ⟨filter, n, hfilter, hconjunct⟩

theorem RestRequest.restricted {request : RestRequest} {parsed : TableRequest}
    {query : StatementBuilder} (h : request.parse decode table = .ok parsed)
    (hquery : parsed.statement = .ok query) (hrestriction : request.restriction = some rawQuery) :
    Restricted parsed.table (criteria decode rawQuery) query.sql := by
  cases request with
  | select _ => cases hrestriction
  | insert _ => cases hrestriction
  | update _ body =>
      obtain rfl := Option.some.inj hrestriction
      obtain ⟨update, hparse, hparsed⟩ := bind_eq_ok.1 h
      obtain rfl := Except.ok.inj hparsed
      obtain ⟨htable, hfilters, hne, -⟩ := parseUpdateRequest_eq_ok hparse
      obtain ⟨columns, hcolumns, hstatement⟩ := bind_eq_ok.1 hquery
      obtain rfl := Except.ok.inj hstatement
      exact restricted_pushFilters (written_pushUpdate _ (QualifiedTable.identified_of_parse htable)
        (isIdentifier_of_validatePatch hcolumns)) hne hfilters
  | delete _ =>
      obtain rfl := Option.some.inj hrestriction
      obtain ⟨deletion, hparse, hparsed⟩ := bind_eq_ok.1 h
      obtain rfl := Except.ok.inj hparsed
      obtain rfl := Except.ok.inj hquery
      obtain ⟨htable, hfilters, hne⟩ := parseDeleteRequest_eq_ok hparse
      exact restricted_pushFilters (written_delete (QualifiedTable.identified_of_parse htable)) hne
        hfilters

end Requests

/-- No value reaches the text of a statement: the text depends on the shape of the request, it is
made of the words of the storage, quoted identifiers and placeholders, and a change has a `WHERE`
clause with a conjunct for every criterion of its query. -/
theorem statement_exact (decode : String → List (String × String)) (table : String)
    (request : RestRequest) (parsed : TableRequest) (query : StatementBuilder)
    (h : request.parse decode table = .ok parsed) (hquery : parsed.statement = .ok query) :
    (∀ (table' : String) (request' : RestRequest) (parsed' : TableRequest)
      (query' : StatementBuilder), request'.parse decode table' = .ok parsed' →
      parsed'.statement = .ok query' → parsed'.shape = parsed.shape → query'.sql = query.sql) ∧
    Written statementWords query ∧
    (∀ rawQuery, request.restriction = some rawQuery →
      Restricted parsed.table (criteria decode rawQuery) query.sql) :=
  ⟨fun _ _ _ _ _ hquery' hshape => (TableRequest.alike hshape hquery' hquery).sql,
    RestRequest.written h hquery, fun _ hrestriction => RestRequest.restricted h hquery hrestriction⟩

/-- The deletion of one todo. -/
theorem statement_exact_todos :
    Restricted ⟨none, "todos"⟩ [("id", "eq.7")]
      (deleteRows ⟨⟨none, "todos"⟩, [⟨"id", .eq, "7"⟩]⟩).sql :=
  (statement_exact (fun _ => [("id", "eq.7"), ("limit", "1")]) "todos" (.delete "id=eq.7&limit=1")
    (.delete ⟨⟨none, "todos"⟩, [⟨"id", .eq, "7"⟩]⟩) _ rfl rfl).2.2 _ rfl

end Evobase
