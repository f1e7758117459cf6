import Evobase.Db.Postgres

/-!
# The text of a statement

The text of a statement is made of the words of the storage, of quoted identifiers and of
placeholders, and it is the same for two requests that differ in their values alone. The filters
of a change stand in its `WHERE` clause, one conjunct for each.

The texts are followed by `Assembled`, for a query whose text is made of allowed words, and by a
relation between the statements of two requests of one shape. Values are bound, so no part of the
text comes from a value.
-/

namespace Evobase

open Foundation QueryBuilder PostgresStorage

def changeWords : List String :=
  ["with patch as (select ", ", ", " from jsonb_populate_record(NULL::", ".", ")) update ",
    " as t set ", " = patch.", " from patch", "delete from ", " as t"]

/-- The words of a statement. -/
def statementWords : List String :=
  changeWords ++
    ["select to_jsonb(t) as row from (select ", "t.*", "t.", " from ", " ORDER BY ", " DESC",
      " ASC", " WHERE ", " AND ", "t", "::text ", "=", "!=", ">", ">=", "<", "<=", "LIKE", "ILIKE",
      " ", " (SELECT x.", " FROM jsonb_populate_record(NULL::", ", jsonb_build_object(",
      ", to_jsonb(", "))) AS x)", " limit ", " offset ", ") as t", "with input_rows as (select ",
      " from jsonb_populate_recordset(NULL::", ")) insert into ", " as inserted (", ") select ",
      " from input_rows returning to_jsonb(inserted.*)", " returning to_jsonb(t.*)"]

theorem changeWords_subset : changeWords ⊆ statementWords := List.subset_append_left _ _

/-- No word of a statement holds a quote. -/
example : ∀ word ∈ statementWords, '"' ∉ word.toList ∧ '\'' ∉ word.toList := by decide

section Assembled

variable {words : List String} {query : StatementBuilder} {table : QualifiedTable}
  {columns : List String}

abbrev Written (words : List String) (query : StatementBuilder) : Prop :=
  Assembled words IsIdentifier query

theorem written_pushTable (h : Written words query) (htable : table.Identified)
    (hdot : "." ∈ words) : Written words (pushTable query table) := by
  obtain ⟨schema, name⟩ := table
  cases schema with
  | none => exact h.pushName htable.2
  | some schema =>
      have hpieces := h.pushPieces [.name schema, .word ".", .name name]
        (by simpa [Piece.Admitted] using ⟨htable.1 schema rfl, hdot, htable.2⟩) rfl
      simpa only [pushTable, QualifiedTable.quoted, quotedIdentifier, textOf, Piece.text,
        List.map_cons, List.map_nil, String.join_cons, String.join_nil, String.append_empty,
        String.append_assoc] using hpieces

theorem written_pushColumns (h : Written words query) (hcolumns : ∀ c ∈ columns, IsIdentifier c)
    (hcomma : ", " ∈ words) : Written words (pushColumns query columns none) :=
  pushSeparated_induction h (fun _ h => h.pushWord hcomma)
    fun column hcolumn _ h => h.pushName (hcolumns column hcolumn)

theorem written_pushSelectList {select : SelectList} (h : Written statementWords query)
    (hselect : ∀ names, select = .columns names → ∀ c ∈ names, IsIdentifier c) :
    Written statementWords (pushSelectList query select) := by
  cases select with
  | all => exact h.pushWord (by decide)
  | columns names =>
      exact pushSeparated_induction h (fun _ h => h.pushWord (by decide)) fun column hcolumn _ h =>
        (h.pushWord (by decide)).pushName (hselect names rfl column hcolumn)

theorem written_pushOrderBy {orderBy : List OrderBy} (h : Written statementWords query)
    (horderBy : ∀ order ∈ orderBy, IsIdentifier order.column) :
    Written statementWords (pushOrderBy query orderBy) := by
  unfold pushOrderBy
  split_ifs with hempty
  · exact h
  · refine pushSeparated_induction (h.pushWord (by decide)) (fun _ h => h.pushWord (by decide)) ?_
    intro order horder query h
    have hname := (h.pushWord (by decide : "t." ∈ statementWords)).pushName (horderBy order horder)
    exact hname.pushWord (by split <;> decide)

theorem written_pushFilter {filter : Filter} (h : Written statementWords query)
    (htable : table.Identified) (hfilter : IsIdentifier filter.column) :
    Written statementWords (pushFilter table "t" query filter) := by
  have hcolumn : Written statementWords
      (((query.push "t").push ".").push (quotedIdentifier filter.column)) :=
    ((h.pushWord (by decide)).pushWord (by decide)).pushName hfilter
  have hpattern (operator : FilterOperator) (value : BindValue) : Written statementWords
      ((((((query.push "t").push ".").push (quotedIdentifier filter.column)).push "::text ").push
        operator.sqlOperator).push " " |>.pushBind value) :=
    (((hcolumn.pushWord (by decide)).pushWord (by cases operator <;> decide)).pushWord
      (by decide)).pushBind value
  have hpopulate (operator : FilterOperator) : Written statementWords
      ((((((query.push "t").push ".").push (quotedIdentifier filter.column)).push " ").push
        operator.sqlOperator).push " (SELECT x.") :=
    ((hcolumn.pushWord (by decide)).pushWord (by cases operator <;> decide)).pushWord (by decide)
  have hrecord (operator : FilterOperator) := written_pushTable
    (((hpopulate operator).pushName hfilter).pushWord
      (by decide : " FROM jsonb_populate_record(NULL::" ∈ statementWords)) htable (by decide)
  have hcompare (operator : FilterOperator) := ((((hrecord operator).pushWord
    (by decide : ", jsonb_build_object(" ∈ statementWords)).pushBind (.text filter.column)).pushWord
    (by decide : ", to_jsonb(" ∈ statementWords)).pushBind (.text filter.value)
  unfold pushFilter
  cases filter.operator with
  | like | ilike => exact hpattern _ _
  | _ => exact (hcompare _).pushWord (by decide)

theorem written_pushFilters {filters : List Filter} (h : Written statementWords query)
    (htable : table.Identified) (hfilters : ∀ f ∈ filters, IsIdentifier f.column) :
    Written statementWords (pushFilters query table filters "t") := by
  unfold pushFilters
  split_ifs with hempty
  · exact h
  · exact pushSeparated_induction (h.pushWord (by decide)) (fun _ h => h.pushWord (by decide))
      fun filter hfilter _ h => written_pushFilter h htable (hfilters filter hfilter)

theorem written_pushBound {word : String} (h : Written words query) (hword : word ∈ words)
    (bound : Option I64) : Written words (pushBound query word bound) := by
  cases bound with
  | none => exact h
  | some bound => exact (h.pushWord hword).pushBind _

theorem written_selectRows {request : TableSelect} (htable : request.table.Identified)
    (hselect : ∀ names, request.select = .columns names → ∀ c ∈ names, IsIdentifier c)
    (hfilters : ∀ f ∈ request.filters, IsIdentifier f.column)
    (horderBy : ∀ order ∈ request.orderBy, IsIdentifier order.column) :
    Written statementWords (selectRows request) := by
  have hlist := written_pushSelectList
    (Assembled.new (by decide : "select to_jsonb(t) as row from (select " ∈ statementWords)) hselect
  have hfrom := written_pushTable (hlist.pushWord (by decide : " from " ∈ statementWords)) htable
    (by decide)
  have hwhere := written_pushFilters (hfrom.pushWord (by decide : " as t" ∈ statementWords)) htable
    hfilters
  have horder := written_pushOrderBy hwhere horderBy
  have hlimit := written_pushBound horder (by decide : " limit " ∈ statementWords) request.limit
  exact (written_pushBound hlimit (by decide) request.offset).pushWord (by decide)

theorem isIdentifier_of_validateInsertRows {rows : List PayloadRow}
    (h : validateInsertRows rows = .ok columns) : ∀ c ∈ columns, IsIdentifier c := by
  cases rows with
  | nil => cases h
  | cons firstRow rows =>
      simp only [validateInsertRows, bind_eq_ok, each_eq_ok_iff, Except.ok.injEq] at h
      obtain ⟨-, -, -, hcolumns, -, -, rfl⟩ := h
      exact fun c hc => validateIdentifier_eq_ok_iff.1 (hcolumns c hc)

theorem columns_of_validateInsertRows {rows : List PayloadRow}
    (h : validateInsertRows rows = .ok columns) :
    columns = (rows.map OrdMap.keys).head?.getD [] := by
  cases rows with
  | nil => cases h
  | cons firstRow rows =>
      simp only [validateInsertRows, bind_eq_ok, Except.ok.injEq] at h
      obtain ⟨-, -, -, -, -, -, rfl⟩ := h
      rfl

theorem isIdentifier_of_validatePatch {patch : PayloadRow} (h : validatePatch patch = .ok columns) :
    ∀ c ∈ columns, IsIdentifier c := by
  simp only [validatePatch, bind_eq_ok, each_eq_ok_iff, Except.ok.injEq] at h
  obtain ⟨-, -, -, hcolumns, rfl⟩ := h
  exact fun c hc => validateIdentifier_eq_ok_iff.1 (hcolumns c hc)

theorem written_insertRows {request : TableInsert} (htable : request.table.Identified)
    (h : insertRows request = .ok query) : Written statementWords query := by
  simp only [insertRows, bind_eq_ok, Except.ok.injEq] at h
  obtain ⟨columns, hvalidate, rfl⟩ := h
  have hcolumns := isIdentifier_of_validateInsertRows hvalidate
  have hrows := written_pushColumns
    (Assembled.new (by decide : "with input_rows as (select " ∈ statementWords)) hcolumns (by decide)
  have hset := written_pushTable
    (hrows.pushWord (by decide : " from jsonb_populate_recordset(NULL::" ∈ statementWords)) htable
    (by decide)
  have hpayload := (hset.pushWord (by decide : ", " ∈ statementWords)).pushBind
    (.json (.arr (request.rows.map fun row => .obj row.entries)))
  have hinto := written_pushTable
    (hpayload.pushWord (by decide : ")) insert into " ∈ statementWords)) htable (by decide)
  have htarget := written_pushColumns
    (hinto.pushWord (by decide : " as inserted (" ∈ statementWords)) hcolumns (by decide)
  have hsource := written_pushColumns
    (htarget.pushWord (by decide : ") select " ∈ statementWords)) hcolumns (by decide)
  exact hsource.pushWord (by decide)

theorem written_pushUpdate (payload : Json) (htable : table.Identified)
    (hcolumns : ∀ c ∈ columns, IsIdentifier c) :
    Written changeWords (pushUpdate table columns payload) := by
  have hpatch := written_pushColumns (Assembled.new (by decide : "with patch as (select " ∈ changeWords))
    hcolumns (by decide)
  have hrecord := written_pushTable
    (hpatch.pushWord (by decide : " from jsonb_populate_record(NULL::" ∈ changeWords)) htable
    (by decide)
  have hpayload := (hrecord.pushWord (by decide : ", " ∈ changeWords)).pushBind (.json payload)
  have hupdate := written_pushTable
    (hpayload.pushWord (by decide : ")) update " ∈ changeWords)) htable (by decide)
  have hset : Written changeWords _ :=
    pushSeparated_induction (hupdate.pushWord (by decide : " as t set " ∈ changeWords))
      (fun _ h => h.pushWord (by decide : ", " ∈ changeWords)) fun column hcolumn _ h =>
        (((h.pushName (hcolumns column hcolumn)).pushWord
          (by decide : " = patch." ∈ changeWords)).pushName (hcolumns column hcolumn))
  exact hset.pushWord (by decide)

theorem written_delete (htable : table.Identified) : Written changeWords
    ((pushTable (QueryBuilder.new "delete from ") table).push " as t") :=
  (written_pushTable (Assembled.new (by decide)) htable (by decide)).pushWord (by decide)

end Assembled

/-- The text of the conjunct for a filter, after `n` values have been bound. -/
def Filter.conjunct (table : QualifiedTable) (filter : Filter) (n : Nat) : String :=
  let column := "t" ++ "." ++ quotedIdentifier filter.column
  match filter.operator with
  | .like | .ilike =>
      column ++ "::text " ++ filter.operator.sqlOperator ++ " " ++ ("$" ++ toString (n + 1))
  | operator =>
      column ++ " " ++ operator.sqlOperator ++ " (SELECT x." ++ quotedIdentifier filter.column ++
        " FROM jsonb_populate_record(NULL::" ++ table.quoted ++ ", jsonb_build_object(" ++
        ("$" ++ toString (n + 1)) ++ ", to_jsonb(" ++ ("$" ++ toString (n + 2)) ++ "))) AS x)"

theorem sql_pushFilter (table : QualifiedTable) (query : StatementBuilder) (filter : Filter) :
    (pushFilter table "t" query filter).sql =
      query.sql ++ filter.conjunct table query.arguments.length := by
  unfold pushFilter Filter.conjunct
  cases filter.operator <;> simp only [sql_push, sql_pushBind, arguments_push, arguments_pushBind,
    List.length_append, List.length_singleton, String.append_assoc]

theorem exists_sql_pushFilters (table : QualifiedTable) (query : StatementBuilder)
    {filters : List Filter} (h : filters ≠ []) :
    ∃ conjuncts, (pushFilters query table filters "t").sql =
        query.sql ++ " WHERE " ++ " AND ".intercalate conjuncts ∧
      List.Forall₂ (fun filter text => ∃ n, text = filter.conjunct table n) filters conjuncts := by
  rw [pushFilters, if_neg h]
  exact exists_sql_pushSeparated (sql_pushFilter table) filters

def filterShape (filters : List Filter) : List (String × FilterOperator) :=
  filters.map fun filter => (filter.column, filter.operator)

section Alike

variable {query query' : StatementBuilder} {table : QualifiedTable}

theorem alike_pushFilter {filter filter' : Filter} (h : Alike query query')
    (hfilter : (filter.column, filter.operator) = (filter'.column, filter'.operator)) :
    Alike (pushFilter table "t" query filter) (pushFilter table "t" query' filter') := by
  obtain ⟨column, operator, value⟩ := filter
  obtain ⟨column', operator', value'⟩ := filter'
  obtain ⟨rfl, rfl⟩ := Prod.mk.inj hfilter
  have hcolumn := ((h.push "t").push ".").push (quotedIdentifier column)
  have hpattern (word : String) := (((hcolumn.push "::text ").push word).push " ").pushBind
    (.text value) (.text value')
  have hrecord (word : String) := (((((hcolumn.push " ").push word).push " (SELECT x.").push
    (quotedIdentifier column)).push " FROM jsonb_populate_record(NULL::").push table.quoted
  have hcompare (word : String) := (((hrecord word).push ", jsonb_build_object(").pushBind
    (.text column) (.text column)).push ", to_jsonb("
  unfold pushFilter
  cases operator with
  | like | ilike => exact hpattern _
  | _ => exact ((hcompare _).pushBind (.text value) (.text value')).push "))) AS x)"

theorem alike_pushFilters (table : QualifiedTable) {filters filters' : List Filter}
    (h : Alike query query') (hfilters : filterShape filters = filterShape filters') :
    Alike (pushFilters query table filters "t") (pushFilters query' table filters' "t") := by
  have hforall : List.Forall₂ (fun filter filter' : Filter =>
      (filter.column, filter.operator) = (filter'.column, filter'.operator)) filters filters' := by
    rw [filterShape, filterShape, ← List.forall₂_eq_eq_eq, List.forall₂_map_left_iff,
      List.forall₂_map_right_iff] at hfilters
    exact hfilters
  have hempty : filters = [] ↔ filters' = [] := by
    rw [← List.length_eq_zero_iff, hforall.length_eq, List.length_eq_zero_iff]
  unfold pushFilters
  by_cases hnil : filters = []
  · rw [if_pos hnil, if_pos (hempty.1 hnil)]
    exact h
  · rw [if_neg hnil, if_neg fun h => hnil (hempty.2 h)]
    exact (h.push " WHERE ").pushSeparated hforall
      fun filter filter' _ _ hfilter halike => alike_pushFilter halike hfilter

theorem alike_pushColumns (h : Alike query query') (columns : List String) :
    Alike (pushColumns query columns none) (pushColumns query' columns none) :=
  h.pushSeparated_same columns fun column _ _ halike => halike.push (quotedIdentifier column)

theorem alike_pushOrderBy (h : Alike query query') (orderBy : List OrderBy) :
    Alike (pushOrderBy query orderBy) (pushOrderBy query' orderBy) := by
  unfold pushOrderBy
  split_ifs
  · exact h
  · exact (h.push " ORDER BY ").pushSeparated_same orderBy fun _ _ _ halike =>
      ((halike.push _).push _).push _

theorem alike_pushBound (h : Alike query query') (word : String) {bound bound' : Option I64}
    (hbound : bound.isSome = bound'.isSome) :
    Alike (pushBound query word bound) (pushBound query' word bound') := by
  cases bound <;> cases bound'
  · exact h
  · cases hbound
  · cases hbound
  · exact (h.push word).pushBind _ _

theorem alike_selectRows {request request' : TableSelect} (htable : request.table = request'.table)
    (hselect : request.select = request'.select)
    (hfilters : filterShape request.filters = filterShape request'.filters)
    (horderBy : request.orderBy = request'.orderBy)
    (hlimit : request.limit.isSome = request'.limit.isSome)
    (hoffset : request.offset.isSome = request'.offset.isSome) :
    Alike (selectRows request) (selectRows request') := by
  unfold selectRows
  rw [← htable, ← hselect, ← horderBy]
  have hwhere := alike_pushFilters request.table (.refl ((pushTable ((pushSelectList (QueryBuilder.new
    "select to_jsonb(t) as row from (select ") request.select).push " from ") request.table).push
    " as t")) hfilters
  have horder := alike_pushOrderBy hwhere request.orderBy
  exact (alike_pushBound (alike_pushBound horder " limit " hlimit) " offset " hoffset).push _

theorem alike_insertRows {request request' : TableInsert} (htable : request.table = request'.table)
    (hrows : request.rows.map OrdMap.keys = request'.rows.map OrdMap.keys)
    (h : insertRows request = .ok query) (h' : insertRows request' = .ok query') :
    Alike query query' := by
  simp only [insertRows, bind_eq_ok, Except.ok.injEq] at h h'
  obtain ⟨columns, hcolumns, rfl⟩ := h
  obtain ⟨columns', hcolumns', rfl⟩ := h'
  have heq : columns = columns' := by
    rw [columns_of_validateInsertRows hcolumns, columns_of_validateInsertRows hcolumns', hrows]
  subst heq
  rw [← htable]
  have hset : Alike _ _ := (.refl ((pushTable ((pushColumns (QueryBuilder.new
    "with input_rows as (select ") columns none).push " from jsonb_populate_recordset(NULL::")
    request.table).push ", "))
  have hinto := ((hset.pushBind (.json (.arr (request.rows.map fun row => .obj row.entries)))
    (.json (.arr (request'.rows.map fun row => .obj row.entries)))).push ")) insert into ").push
    request.table.quoted
  have htarget := alike_pushColumns (hinto.push " as inserted (") columns
  exact (alike_pushColumns (htarget.push ") select ") columns).push _

theorem alike_pushUpdate (table : QualifiedTable) (columns : List String)
    (payload payload' : Json) :
    Alike (pushUpdate table columns payload) (pushUpdate table columns payload') := by
  have hpayload := (Alike.refl ((pushTable ((pushColumns (QueryBuilder.new
    "with patch as (select ") columns none).push " from jsonb_populate_record(NULL::")
    table).push ", ")).pushBind (BindValue.json payload) (.json payload')
  refine Alike.push ?_ " from patch"
  refine Alike.pushSeparated_same ?_ columns fun column _ _ halike =>
    ((halike.push (quotedIdentifier column)).push " = patch.").push (quotedIdentifier column)
  exact ((hpayload.push ")) update ").push table.quoted).push " as t set "

theorem alike_updateRows {request request' : TableUpdate} (htable : request.table = request'.table)
    (hpatch : request.patch.keys = request'.patch.keys)
    (hfilters : filterShape request.filters = filterShape request'.filters)
    (h : updateRows request = .ok query) (h' : updateRows request' = .ok query') :
    Alike query query' := by
  simp only [updateRows, validatePatch, bind_eq_ok, Except.ok.injEq] at h h'
  obtain ⟨_, ⟨-, -, -, -, rfl⟩, rfl⟩ := h
  obtain ⟨_, ⟨-, -, -, -, rfl⟩, rfl⟩ := h'
  rw [← htable, ← hpatch]
  exact (alike_pushFilters _ (alike_pushUpdate _ _ _ _) hfilters).push _

theorem alike_deleteRows {request request' : TableDelete} (htable : request.table = request'.table)
    (hfilters : filterShape request.filters = filterShape request'.filters) :
    Alike (deleteRows request) (deleteRows request') := by
  unfold deleteRows
  rw [← htable]
  exact (alike_pushFilters _ (.refl _) hfilters).push _

end Alike

end Evobase
