import Evobase.AppSpec.Constraint
import Evobase.Core.Rest
import Evobase.Foundation.ParseInt

/-!
# The table endpoints of the gateway

A request for a table comes as a path, a raw query and a body. Four parameters of the query have
a meaning of their own; every other one is a filter for the column it is named after. How a raw
query is decoded into its parameters is a parameter here.

Identifiers are checked here, before a statement is written; the writer of the storage quotes what
has been accepted.
-/

namespace Evobase

open Foundation

def isReserved (key : String) : Bool :=
  key = "select" || key = "order" || key = "limit" || key = "offset"

section Rest

variable (decode : String → List (String × String))

/-- The parameters of a query, if there is one. -/
def parameters (rawQuery : Option String) : List (String × String) :=
  match rawQuery with
  | some rawQuery => decode rawQuery
  | none => []

def parseSelectList (value : String) : AppResult SelectList :=
  if value = "*" then .ok .all
  else do
    let columns ← (((Text.split ',' value).map trim).filter (· ≠ "")).mapM fun column => do
      validateIdentifier column
      .ok column
    rejectIf (columns = []) (.badRequest "select must contain at least one column")
    .ok (.columns columns)

/-- One column of an order, ascending unless the direction says otherwise. -/
def parseOrder (part : String) : AppResult OrderBy := do
  let (column, direction) := (Text.splitOnce '.' part).getD (part, "asc")
  validateIdentifier column
  match direction with
  | "asc" => .ok ⟨column, false⟩
  | "desc" => .ok ⟨column, true⟩
  | other => .error (.badRequest ("unsupported order direction `" ++ other ++ "`"))

def parseOrderBy (value : String) : AppResult (List OrderBy) :=
  (((Text.split ',' value).map trim).filter (· ≠ "")).mapM parseOrder

/-- A filter is an operator and a value, or a value alone for equality. -/
def parseOperator (rawValue : String) : AppResult (FilterOperator × String) :=
  match Text.splitOnce '.' rawValue with
  | some (operator, value) => do
      let operator ← FilterOperator.parse operator
      .ok (operator, value)
  | none => .ok (.eq, rawValue)

def parseFilter (column rawValue : String) : AppResult Filter := do
  let (operator, value) ← parseOperator rawValue
  rejectIf (value = "")
    (.badRequest ("filter for column `" ++ column ++ "` is missing a value"))
  .ok ⟨column, operator, value⟩

def parseNonNegative (value field : String) : AppResult I64 := do
  let parsed ← renameError
    (fun e : ParseIntError => .badRequest ("invalid " ++ field ++ ": " ++ e.text)) (I64.parse value)
  rejectIf (parsed.val < 0) (.badRequest (field ++ " must be non-negative"))
  .ok parsed

def parseColumnFilter (column value : String) : AppResult Filter := do
  validateIdentifier column
  parseFilter column value

/-- What one parameter does to a selection. -/
def TableSelect.parameter (request : TableSelect) : String × String → AppResult TableSelect
  | ("select", value) => do
      let select ← parseSelectList value
      .ok { request with select }
  | ("order", value) => do
      let orderBy ← parseOrderBy value
      .ok { request with orderBy }
  | ("limit", value) => do
      let limit ← parseNonNegative value "limit"
      .ok { request with limit := some limit }
  | ("offset", value) => do
      let offset ← parseNonNegative value "offset"
      .ok { request with offset := some offset }
  | (column, value) => do
      let filter ← parseColumnFilter column value
      .ok { request with filters := request.filters ++ [filter] }

def parseSelectRequest (table : String) (rawQuery : Option String) : AppResult TableSelect := do
  let table ← QualifiedTable.parse table
  (parameters decode rawQuery).foldlM TableSelect.parameter ⟨table, .all, [], [], none, none⟩

def parseInsertRow : Json → AppResult PayloadRow
  | .obj object => .ok (OrdMap.ofList object)
  | _ => .error (.badRequest "insert payload arrays must contain objects")

def parseInsertRows : Json → AppResult (List PayloadRow)
  | .obj object => .ok [OrdMap.ofList object]
  | .arr values => values.mapM parseInsertRow
  | _ => .error (.badRequest "insert payload must be an object or array of objects")

def parseInsertRequest (table : String) (body : Json) : AppResult TableInsert := do
  let table ← QualifiedTable.parse table
  let rows ← parseInsertRows body
  .ok ⟨table, rows⟩

def parseFilters (rawQuery : Option String) : AppResult (List Filter) :=
  (parameters decode rawQuery).foldlM (fun filters parameter =>
    if isReserved parameter.1 then .ok filters
    else do
      let filter ← parseColumnFilter parameter.1 parameter.2
      .ok (filters ++ [filter])) []

def parseUpdateRequest (table : String) (rawQuery : Option String) (body : Json) :
    AppResult TableUpdate := do
  let table ← QualifiedTable.parse table
  let filters ← parseFilters decode rawQuery
  rejectIf (filters = []) (.badRequest "update requests require at least one filter")
  match body with
  | .obj patch => .ok ⟨table, OrdMap.ofList patch, filters⟩
  | _ => .error (.badRequest "update payload must be a JSON object")

def parseDeleteRequest (table : String) (rawQuery : Option String) : AppResult TableDelete := do
  let table ← QualifiedTable.parse table
  let filters ← parseFilters decode rawQuery
  rejectIf (filters = []) (.badRequest "delete requests require at least one filter")
  .ok ⟨table, filters⟩

def criteria (rawQuery : Option String) : List (String × String) :=
  (parameters decode rawQuery).filter fun parameter => !isReserved parameter.1

theorem parseFilters_eq_mapM (rawQuery : Option String) :
    parseFilters decode rawQuery =
      (criteria decode rawQuery).mapM fun parameter => parseColumnFilter parameter.1 parameter.2 := by
  unfold parseFilters criteria
  rw [foldlM_append_eq_mapM]
  cases ((parameters decode rawQuery).filter fun parameter => !isReserved parameter.1).mapM
    fun parameter => parseColumnFilter parameter.1 parameter.2 <;> rfl

end Rest

section Rest

variable {decode : String → List (String × String)} {table column value : String}
  {rawQuery : Option String} {filter : Filter} {select : SelectList} {orderBy : List OrderBy}
  {names : List String}

theorem parseFilter_column (h : parseFilter column value = .ok filter) : filter.column = column := by
  obtain ⟨_, -, h⟩ := bind_eq_ok.1 h
  obtain ⟨_, -, hfilter⟩ := bind_eq_ok.1 h
  obtain rfl := Except.ok.inj hfilter
  rfl

theorem parseColumnFilter_eq_ok_iff : parseColumnFilter column value = .ok filter ↔
    IsIdentifier column ∧ parseFilter column value = .ok filter := by
  rw [parseColumnFilter, bind_eq_ok, ← validateIdentifier_eq_ok_iff]
  exact ⟨fun ⟨_, hname, hfilter⟩ => ⟨hname, hfilter⟩, fun ⟨hname, hfilter⟩ => ⟨(), hname, hfilter⟩⟩

theorem isIdentifier_of_parseColumnFilter (h : parseColumnFilter column value = .ok filter) :
    IsIdentifier filter.column := by
  obtain ⟨hcolumn, hfilter⟩ := parseColumnFilter_eq_ok_iff.1 h
  rw [parseFilter_column hfilter]
  exact hcolumn

theorem isIdentifier_of_parseSelectList (h : parseSelectList value = .ok (.columns names)) :
    ∀ name ∈ names, IsIdentifier name := by
  unfold parseSelectList at h
  rw [if_neg (by rintro rfl; cases h)] at h
  obtain ⟨columns, hcolumns, h⟩ := bind_eq_ok.1 h
  obtain ⟨_, -, hnames⟩ := bind_eq_ok.1 h
  obtain rfl := SelectList.columns.inj (Except.ok.inj hnames)
  intro name hname
  obtain ⟨column, -, hcolumn⟩ := exists_of_mem_mapM hcolumns hname
  obtain ⟨_, hvalid, hname⟩ := bind_eq_ok.1 hcolumn
  obtain rfl := Except.ok.inj hname
  exact validateIdentifier_eq_ok_iff.1 hvalid

theorem isIdentifier_of_parseOrder {part : String} {order : OrderBy}
    (h : parseOrder part = .ok order) : IsIdentifier order.column := by
  unfold parseOrder at h
  obtain ⟨_, hvalid, h⟩ := bind_eq_ok.1 h
  have hcolumn := validateIdentifier_eq_ok_iff.1 hvalid
  split at h
  · obtain rfl := Except.ok.inj h
    exact hcolumn
  · obtain rfl := Except.ok.inj h
    exact hcolumn
  · cases h

theorem isIdentifier_of_parseOrderBy (h : parseOrderBy value = .ok orderBy) :
    ∀ order ∈ orderBy, IsIdentifier order.column := by
  intro order horder
  obtain ⟨part, -, hpart⟩ := exists_of_mem_mapM h horder
  exact isIdentifier_of_parseOrder hpart

theorem parseNonNegative_eq_ok_iff {field : String} {number : I64} :
    parseNonNegative value field = .ok number ↔ I64.parse value = .ok number ∧ 0 ≤ number.val := by
  simp only [parseNonNegative, bind_eq_ok, renameError_eq_ok, rejectIf_eq_ok, not_lt,
    Except.ok.injEq]
  constructor
  · rintro ⟨_, hparse, _, hle, rfl⟩
    exact ⟨hparse, hle⟩
  · rintro ⟨hparse, hle⟩
    exact ⟨number, hparse, (), hle, rfl⟩

theorem parseNonNegative_toString {n : I64} (h : 0 ≤ n.val) (field : String) :
    parseNonNegative (toString n.val) field = .ok n :=
  parseNonNegative_eq_ok_iff.2 ⟨I64.parse_toString _, h⟩

theorem TableSelect.parameter_of_not_reserved (request : TableSelect)
    (h : isReserved column = false) : request.parameter (column, value) = (do
      let filter ← parseColumnFilter column value
      .ok { request with filters := request.filters ++ [filter] }) := by
  simp only [isReserved, Bool.or_eq_false_iff, decide_eq_false_iff_not] at h
  obtain ⟨⟨⟨hselect, horder⟩, hlimit⟩, hoffset⟩ := h
  unfold TableSelect.parameter
  split
  · next heq => exact absurd (Prod.mk.inj heq).1 hselect
  · next heq => exact absurd (Prod.mk.inj heq).1 horder
  · next heq => exact absurd (Prod.mk.inj heq).1 hlimit
  · next heq => exact absurd (Prod.mk.inj heq).1 hoffset
  · next heq =>
      obtain ⟨rfl, rfl⟩ := Prod.mk.inj heq
      rfl

theorem TableSelect.parameter_cases {request request' : TableSelect} {parameter : String × String}
    (h : request.parameter parameter = .ok request') :
    (isReserved parameter.1 = false ∧
        ∃ filter, parseColumnFilter parameter.1 parameter.2 = .ok filter ∧
          request' = { request with filters := request.filters ++ [filter] }) ∨
      isReserved parameter.1 = true ∧ request'.table = request.table ∧
        request'.filters = request.filters ∧
        (request'.limit = request.limit ∨ ∃ n, request'.limit = some n ∧ 0 ≤ n.val) ∧
        (request'.offset = request.offset ∨ ∃ n, request'.offset = some n ∧ 0 ≤ n.val) := by
  unfold TableSelect.parameter at h
  split at h <;> obtain ⟨parsed, hparsed, hrequest⟩ := bind_eq_ok.1 h <;>
    obtain rfl := Except.ok.inj hrequest
  · exact .inr ⟨rfl, rfl, rfl, .inl rfl, .inl rfl⟩
  · exact .inr ⟨rfl, rfl, rfl, .inl rfl, .inl rfl⟩
  · exact .inr ⟨rfl, rfl, rfl,
      .inr ⟨parsed, rfl, (parseNonNegative_eq_ok_iff.1 hparsed).2⟩, .inl rfl⟩
  · exact .inr ⟨rfl, rfl, rfl, .inl rfl,
      .inr ⟨parsed, rfl, (parseNonNegative_eq_ok_iff.1 hparsed).2⟩⟩
  · next hselect horder hlimit hoffset =>
      exact .inl ⟨by simp_all [isReserved], parsed, hparsed, rfl⟩

/-- An accepted selection has one filter for each of its criteria, and no negative bound. -/
structure TableSelect.Reads (criteria : List (String × String)) (request : TableSelect) : Prop where
  filters : List.Forall₂
    (fun parameter filter => parseColumnFilter parameter.1 parameter.2 = .ok filter)
    criteria request.filters
  limit : ∀ n ∈ request.limit, 0 ≤ n.val
  offset : ∀ n ∈ request.offset, 0 ≤ n.val

theorem parseSelectRequest_eq_ok {request : TableSelect}
    (h : parseSelectRequest decode table rawQuery = .ok request) :
    QualifiedTable.parse table = .ok request.table ∧
      request.Reads (criteria decode rawQuery) := by
  obtain ⟨parsed, htable, h⟩ := bind_eq_ok.1 h
  have hinv := inv_of_foldlM (fun visited (request : TableSelect) =>
    request.table = parsed ∧ request.Reads (visited.filter fun parameter => !isReserved parameter.1))
    h ⟨rfl, .nil, by simp, by simp⟩ ?_
  · exact ⟨hinv.1 ▸ htable, hinv.2⟩
  · rintro visited parameter _ _ request request' ⟨hparsed, hreads⟩ hparameter
    have hbound {bound bound' : Option I64} (h : ∀ n ∈ bound, 0 ≤ n.val)
        (hcases : bound' = bound ∨ ∃ n, bound' = some n ∧ 0 ≤ n.val) :
        ∀ n ∈ bound', 0 ≤ n.val := by
      rcases hcases with rfl | ⟨n, rfl, hle⟩
      · exact h
      · intro m hm
        obtain rfl := Option.mem_some_iff.1 hm
        exact hle
    rcases TableSelect.parameter_cases hparameter with
      ⟨hcolumn, filter, hfilter, rfl⟩ | ⟨hkeyword, htable, hfilters, hlimit, hoffset⟩
    · refine ⟨hparsed, ?_, hreads.limit, hreads.offset⟩
      rw [List.filter_append, List.filter_cons_of_pos (by simp [hcolumn]), List.filter_nil]
      exact List.rel_append hreads.filters (.cons hfilter .nil)
    · refine ⟨htable.trans hparsed, ?_, hbound hreads.limit hlimit, hbound hreads.offset hoffset⟩
      rw [List.filter_append, List.filter_cons_of_neg (by simp [hkeyword]), List.filter_nil,
        List.append_nil, hfilters]
      exact hreads.filters

end Rest

end Evobase
