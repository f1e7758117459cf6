import Evobase.Flutter.RestClient

/-!
# What the gateway reads of the client's requests

A query is read as the client means it when no filter has a dot in its value and no bound is
negative; a deletion moreover needs a filter and has nothing but filters. The body of an insertion
or an update is an envelope that the gateway takes for the row.

How a raw query is encoded and decoded is a parameter; all that is assumed is that what the client
encodes is decoded again by the gateway.
-/

namespace Evobase

open Foundation

def entryOf (key : String) (value : Option String) : List (String × String) :=
  value.toList.map fun value => (key, value)

section Entries

variable {map : List (String × String)} {key value : String} {entries : List (String × String)}

theorem assign_of_notMem (h : key ∉ map.map (·.1)) :
    assign map key value = map ++ [(key, value)] := if_neg h

theorem assignSome_of_notMem (h : key ∉ map.map (·.1)) (value : Option String) :
    assignSome map key value = map ++ entryOf key value := by
  cases value with
  | none => exact (List.append_nil map).symm
  | some value => exact assign_of_notMem h

theorem foldl_assign (hnodup : (entries.map (·.1)).Nodup)
    (hfresh : ∀ entry ∈ entries, entry.1 ∉ map.map (·.1)) :
    entries.foldl (fun map entry => assign map entry.1 entry.2) map = map ++ entries := by
  induction entries generalizing map with
  | nil => exact (List.append_nil map).symm
  | cons entry rest ih =>
      rw [List.map_cons, List.nodup_cons] at hnodup
      rw [List.foldl_cons, assign_of_notMem (hfresh entry List.mem_cons_self), ih hnodup.2]
      · simp
      · intro other hother
        rw [List.map_append, List.mem_append, not_or]
        refine ⟨hfresh other (List.mem_cons_of_mem entry hother), ?_⟩
        intro hmem
        obtain heq : other.1 = entry.1 := by simpa using hmem
        exact hnodup.1 (heq ▸ List.mem_map_of_mem hother)

theorem keys_entryOf (key : String) (value : Option String) :
    ∀ k ∈ (entryOf key value).map (·.1), k = key := by
  cases value <;> simp [entryOf]

end Entries

/-- The entries of a query, in order. -/
theorem QueryParams.Valid.toQueryMap_eq {params : QueryParams} (h : params.Valid) :
    params.toQueryMap = entryOf "select" (joined params.select) ++ params.filter.getD [] ++
      entryOf "order" (joined params.order) ++
      entryOf "limit" (params.limit.map fun limit => toString limit.val) ++
      entryOf "offset" (params.offset.map fun offset => toString offset.val) := by
  have hkey {entry : String × String} (hentry : entry ∈ params.filter.getD []) :
      isReserved entry.1 = false := (h.filter entry hentry).1.2
  have hreserved {key : String} (hkeyword : isReserved key = true) :
      key ∉ (params.filter.getD []).map (·.1) := by
    intro hmem
    obtain ⟨entry, hentry, rfl⟩ := List.mem_map.1 hmem
    exact absurd (hkey hentry) (by simp [hkeyword])
  have hfirst : ∀ entry ∈ params.filter.getD [],
      entry.1 ∉ (entryOf "select" (joined params.select)).map (·.1) := by
    intro entry hentry hmem
    have hselect := keys_entryOf _ _ _ hmem
    have hfalse := hkey hentry
    rw [hselect] at hfalse
    exact absurd hfalse (by decide)
  have hother {key : String} (k : String) (value : Option String) (hne : key ≠ k) :
      key ∉ (entryOf k value).map (·.1) := fun hmem => hne (keys_entryOf k value key hmem)
  have hselect : assignSome [] "select" (joined params.select) =
      entryOf "select" (joined params.select) := assignSome_of_notMem List.not_mem_nil _
  have horder : "order" ∉ (entryOf "select" (joined params.select) ++
      params.filter.getD []).map (·.1) := by
    rw [List.map_append, List.mem_append, not_or]
    exact ⟨hother _ _ (by decide), hreserved (by decide)⟩
  have hlimit : "limit" ∉ (entryOf "select" (joined params.select) ++ params.filter.getD [] ++
      entryOf "order" (joined params.order)).map (·.1) := by
    simp only [List.map_append, List.mem_append, not_or]
    exact ⟨⟨hother _ _ (by decide), hreserved (by decide)⟩, hother _ _ (by decide)⟩
  have hoffset : "offset" ∉ (entryOf "select" (joined params.select) ++ params.filter.getD [] ++
      entryOf "order" (joined params.order) ++
      entryOf "limit" (params.limit.map fun limit => toString limit.val)).map (·.1) := by
    simp only [List.map_append, List.mem_append, not_or]
    exact ⟨⟨⟨hother _ _ (by decide), hreserved (by decide)⟩, hother _ _ (by decide)⟩,
      hother _ _ (by decide)⟩
  simp only [QueryParams.toQueryMap]
  rw [hselect, foldl_assign h.nodup hfirst, assignSome_of_notMem horder,
    assignSome_of_notMem hlimit, assignSome_of_notMem hoffset]

section Queries

variable {decode : String → List (String × String)} {encode : List (String × String) → String}
  {params : QueryParams}

theorem parameters_rawQuery (hcodec : decode (encode params.toQueryMap) = params.toQueryMap) :
    parameters decode (RestClient.rawQuery encode (some params)) = params.toQueryMap := by
  unfold RestClient.rawQuery parameters
  rw [Option.map_some]
  cases hmap : params.toQueryMap with
  | nil => rfl
  | cons entry rest =>
      rw [hmap] at hcodec
      exact hcodec

theorem criteria_rawQuery (encode : List (String × String) → String)
    (hcodec : decode (encode params.toQueryMap) = params.toQueryMap)
    (h : params.Valid) :
    criteria decode (RestClient.rawQuery encode (some params)) = params.filter.getD [] := by
  have hkeyword {key : String} (hkey : isReserved key = true) (value : Option String) :
      (entryOf key value).filter (fun parameter => !isReserved parameter.1) = [] := by
    rw [List.filter_eq_nil_iff]
    intro entry hentry
    rw [keys_entryOf key value entry.1 (List.mem_map_of_mem hentry), hkey]
    decide
  have hfilter : (params.filter.getD []).filter (fun parameter => !isReserved parameter.1) =
      params.filter.getD [] := by
    rw [List.filter_eq_self]
    intro entry hentry
    rw [(h.filter entry hentry).1.2]
    rfl
  rw [criteria, parameters_rawQuery hcodec, h.toQueryMap_eq]
  simp only [List.filter_append, hfilter, hkeyword (by decide : isReserved "select" = true),
    hkeyword (by decide : isReserved "order" = true),
    hkeyword (by decide : isReserved "limit" = true),
    hkeyword (by decide : isReserved "offset" = true), List.append_nil, List.nil_append]

end Queries

theorem parseFilter_eq_iff {column value : String} (hvalue : value ≠ "") :
    parseFilter column value = .ok ⟨column, .eq, value⟩ ↔ '.' ∉ value.toList := by
  rw [← Text.splitOnce_eq_none_iff]
  constructor
  · intro h
    obtain ⟨⟨operator, rest⟩, hoperator, h⟩ := bind_eq_ok.1 h
    obtain ⟨-, hfilter⟩ := rejectIf_bind_eq_ok.1 h
    obtain ⟨-, rfl, rfl⟩ := Filter.mk.inj (Except.ok.inj hfilter)
    unfold parseOperator at hoperator
    split at hoperator
    · next before after hsplit =>
        obtain ⟨_, -, hrest⟩ := bind_eq_ok.1 hoperator
        obtain ⟨-, heq⟩ := Prod.mk.inj (Except.ok.inj hrest)
        have hlt := Text.length_of_splitOnce hsplit
        rw [heq] at hlt
        exact absurd hlt (lt_irrefl _)
    · assumption
  · intro hnone
    unfold parseFilter parseOperator
    rw [hnone, ok_bind]
    exact rejectIf_bind_eq_ok.2 ⟨hvalue, rfl⟩

theorem forall₂_parseFilter_iff {entries : List (String × String)}
    (h : ∀ entry ∈ entries, IsColumn entry.1 ∧ entry.2 ≠ "") :
    List.Forall₂ (fun parameter filter => parseColumnFilter parameter.1 parameter.2 = .ok filter)
        entries (entries.map fun entry => ⟨entry.1, .eq, entry.2⟩) ↔
      ∀ entry ∈ entries, '.' ∉ entry.2.toList := by
  rw [List.forall₂_map_right_iff, List.forall₂_same]
  refine forall₂_congr fun entry hentry => ?_
  rw [parseColumnFilter_eq_ok_iff, parseFilter_eq_iff (h entry hentry).2]
  exact and_iff_right (h entry hentry).1.1

theorem trim_of_forall {text : String} (h : ∀ c ∈ text.toList, isWhitespace c = false) :
    trim text = text := by
  have hdrop : ∀ l : List Char, (∀ c ∈ l, isWhitespace c = false) →
      l.dropWhile isWhitespace = l := by
    intro l hl
    cases l with
    | nil => rfl
    | cons c rest => exact List.dropWhile_cons_of_neg (by simp [hl c List.mem_cons_self])
  rw [trim, hdrop _ h, hdrop _ fun c hc => h c (List.mem_reverse.1 hc), List.reverse_reverse,
    String.ofList_toList]

def isEntryPart (c : Char) : Bool := isIdentifierPart c || c = '.'

theorem isWhitespace_of_isEntryPart {c : Char} (h : isEntryPart c = true) :
    isWhitespace c = false := by
  simp only [isEntryPart, isIdentifierPart, Bool.or_eq_true, decide_eq_true_eq,
    Text.isAlphanum_iff] at h
  have hrange : (48 ≤ c.toNat ∧ c.toNat ≤ 57) ∨ (65 ≤ c.toNat ∧ c.toNat ≤ 90) ∨
      (97 ≤ c.toNat ∧ c.toNat ≤ 122) ∨ c.toNat = 95 ∨ c.toNat = 46 := by
    rcases h with (h | rfl) | rfl
    · omega
    · exact .inr (.inr (.inr (.inl rfl)))
    · exact .inr (.inr (.inr (.inr rfl)))
  simp only [isWhitespace, Bool.or_eq_false_iff, Bool.and_eq_false_iff, decide_eq_false_iff_not]
  omega

theorem isEntryPart_of_isIdentifier {name : String} (h : IsIdentifier name) :
    ∀ c ∈ name.toList, isEntryPart c = true := by
  obtain ⟨first, rest, hlist, hfirst, hrest⟩ := h
  intro c hc
  rw [hlist] at hc
  rcases List.mem_cons.1 hc with rfl | hc
  · simp only [isIdentifierStart, Bool.or_eq_true] at hfirst
    simp only [isEntryPart, isIdentifierPart, Char.isAlphanum, Bool.or_eq_true]
    exact .inl (hfirst.imp_left .inl)
  · simp [isEntryPart, hrest c hc]

theorem dot_notMem_of_isIdentifier {name : String} (h : IsIdentifier name) :
    '.' ∉ name.toList := by
  obtain ⟨first, rest, hlist, hfirst, hrest⟩ := h
  rw [hlist]
  intro hmem
  rcases List.mem_cons.1 hmem with rfl | hmem
  · cases hfirst
  · exact absurd (hrest '.' hmem) (by decide)

theorem split_joined {names : List String} (hne : names ≠ [])
    (h : ∀ name ∈ names, name ≠ "" ∧ ∀ c ∈ name.toList, isEntryPart c = true) :
    ((Text.split ',' (",".intercalate names)).map trim).filter (· ≠ "") = names := by
  have hcomma : ∀ name ∈ names, ',' ∉ name.toList :=
    fun name hname hmem => absurd ((h name hname).2 ',' hmem) (by decide)
  have hsplit : Text.split ',' (",".intercalate names) = names :=
    Text.split_intercalate hne hcomma
  have htrim : names.map trim = names := by
    conv_rhs => rw [← List.map_id names]
    exact List.map_congr_left fun name hname =>
      trim_of_forall fun c hc => isWhitespace_of_isEntryPart ((h name hname).2 c hc)
  rw [hsplit, htrim, List.filter_eq_self]
  exact fun name hname => by simpa using (h name hname).1

theorem ne_empty_of_isIdentifier {name : String} (h : IsIdentifier name) : name ≠ "" := by
  rintro rfl
  obtain ⟨first, rest, hlist, -⟩ := h
  cases hlist

theorem parseSelectList_joined {names : List String} (hne : names ≠ [])
    (h : ∀ name ∈ names, IsIdentifier name) :
    parseSelectList (",".intercalate names) = .ok (.columns names) := by
  have hsplit := split_joined hne fun name hname =>
    ⟨ne_empty_of_isIdentifier (h name hname), isEntryPart_of_isIdentifier (h name hname)⟩
  have hstar : ",".intercalate names ≠ "*" := by
    intro heq
    rw [heq] at hsplit
    have hmem : "*" ∈ names := hsplit ▸ (by decide)
    exact absurd (isEntryPart_of_isIdentifier (h "*" hmem) '*' (by decide)) (by decide)
  have hvalid : names.mapM (fun column => do
      validateIdentifier column
      (.ok column : AppResult String)) = .ok names := by
    rw [mapM_eq_ok_iff, List.forall₂_same]
    exact fun name hname => bind_eq_ok.2 ⟨(), validateIdentifier_eq_ok_iff.2 (h name hname), rfl⟩
  unfold parseSelectList
  rw [if_neg hstar, hsplit, hvalid, ok_bind]
  exact rejectIf_bind_eq_ok.2 ⟨hne, rfl⟩

theorem parseOrder_of_isEntry {order : OrderBy} {entry : String} (h : order.IsEntry entry) :
    parseOrder entry = .ok order := by
  obtain ⟨column, descending⟩ := order
  obtain ⟨hcolumn, hentry⟩ := h
  have hdot := dot_notMem_of_isIdentifier hcolumn
  have hvalid := validateIdentifier_eq_ok_iff.2 hcolumn
  have hsplit (direction : String) :
      Text.splitOnce '.' (column ++ ("." ++ direction)) = some (column, direction) := by
    rw [← String.append_assoc]
    exact Text.splitOnce_append hdot direction
  cases descending with
  | true =>
      obtain rfl : entry = column ++ ".desc" := hentry
      unfold parseOrder
      rw [show column ++ ".desc" = column ++ ("." ++ "desc") from rfl, hsplit, Option.getD_some]
      exact bind_eq_ok.2 ⟨(), hvalid, rfl⟩
  | false =>
      rcases hentry with rfl | rfl
      · unfold parseOrder
        rw [Text.splitOnce_eq_none_iff.2 hdot, Option.getD_none]
        exact bind_eq_ok.2 ⟨(), hvalid, rfl⟩
      · unfold parseOrder
        rw [show column ++ ".asc" = column ++ ("." ++ "asc") from rfl, hsplit, Option.getD_some]
        exact bind_eq_ok.2 ⟨(), hvalid, rfl⟩

theorem isEntryPart_of_isEntry {order : OrderBy} {entry : String} (h : order.IsEntry entry) :
    entry ≠ "" ∧ ∀ c ∈ entry.toList, isEntryPart c = true := by
  obtain ⟨column, descending⟩ := order
  obtain ⟨hcolumn, hentry⟩ := h
  have hparts := isEntryPart_of_isIdentifier hcolumn
  have hsuffix (suffix : String) (hall : suffix.toList.all isEntryPart = true) :
      column ++ suffix ≠ "" ∧ ∀ c ∈ (column ++ suffix).toList, isEntryPart c = true := by
    refine ⟨?_, fun c hc => ?_⟩
    · intro hempty
      exact ne_empty_of_isIdentifier hcolumn (String.append_eq_empty_iff.1 hempty).1
    · rw [String.toList_append, List.mem_append] at hc
      exact hc.elim (hparts c) (List.all_eq_true.1 hall c)
  cases descending with
  | true =>
      obtain rfl : entry = column ++ ".desc" := hentry
      exact hsuffix _ (by decide)
  | false =>
      rcases hentry with rfl | rfl
      · exact ⟨ne_empty_of_isIdentifier hcolumn, hparts⟩
      · exact hsuffix _ (by decide)

theorem parseOrderBy_joined {entries : List String} {orders : List OrderBy} (hne : entries ≠ [])
    (h : List.Forall₂ (fun entry order => OrderBy.IsEntry order entry) entries orders) :
    parseOrderBy (",".intercalate entries) = .ok orders := by
  have hentry : ∀ entry ∈ entries, entry ≠ "" ∧ ∀ c ∈ entry.toList, isEntryPart c = true := by
    intro entry hentry
    obtain ⟨order, horder⟩ := exists_mem_zip_of_forall₂ h hentry
    exact isEntryPart_of_isEntry (List.forall₂_zip h horder)
  unfold parseOrderBy
  rw [split_joined hne hentry, mapM_eq_ok_iff]
  exact h.imp fun entry order horder => parseOrder_of_isEntry horder

/-- No filter has a dot in its value, every order has a known direction, and no bound is
negative. -/
structure QueryParams.Plain (params : QueryParams) : Prop where
  filter : ∀ entry ∈ params.filter.getD [], '.' ∉ entry.2.toList
  order : ∀ entry ∈ params.order.getD [], ∃ order : OrderBy, order.IsEntry entry
  limit : ∀ n ∈ params.limit, 0 ≤ n.val
  offset : ∀ n ∈ params.offset, 0 ≤ n.val

/-- The only parameters are filters. -/
structure QueryParams.OnlyFilters (params : QueryParams) : Prop where
  select : params.select.getD [] = []
  order : params.order.getD [] = []
  limit : params.limit = none
  offset : params.offset = none

section Fold

variable {request : TableSelect} {params : QueryParams}

theorem foldlM_select (names : Option (List String)) (hall : request.select = .all)
    (h : ∀ name ∈ names.getD [], IsIdentifier name) :
    (entryOf "select" (joined names)).foldlM TableSelect.parameter request =
      .ok { request with
        select := if names.getD [] = [] then .all else .columns (names.getD []) } := by
  match names with
  | none | some [] =>
      obtain ⟨_, select, _⟩ := request
      obtain rfl : select = .all := hall
      rfl
  | some (name :: rest) =>
      have hparse := parseSelectList_joined (List.cons_ne_nil name rest) h
      change (do
        let next ← request.parameter ("select", ",".intercalate (name :: rest))
        .ok next) = _
      simp only [TableSelect.parameter, hparse, ok_bind]
      rfl

theorem foldlM_order {entries : Option (List String)} {orders : List OrderBy}
    (hnone : request.orderBy = [])
    (h : List.Forall₂ (fun entry order => OrderBy.IsEntry order entry) (entries.getD []) orders) :
    (entryOf "order" (joined entries)).foldlM TableSelect.parameter request =
      .ok { request with orderBy := orders } := by
  match entries with
  | none | some [] =>
      obtain ⟨_, _, _, orderBy, _⟩ := request
      obtain rfl : orderBy = [] := hnone
      obtain rfl := List.forall₂_nil_left_iff.1 h
      rfl
  | some (entry :: rest) =>
      have hparse := parseOrderBy_joined (List.cons_ne_nil entry rest) h
      change (do
        let next ← request.parameter ("order", ",".intercalate (entry :: rest))
        .ok next) = _
      simp only [TableSelect.parameter, hparse, ok_bind]

theorem foldlM_columns {entries : List (String × String)} {filters : List Filter}
    (hcolumns : ∀ entry ∈ entries, isReserved entry.1 = false)
    (h : List.Forall₂ (fun entry filter => parseColumnFilter entry.1 entry.2 = .ok filter)
      entries filters) :
    entries.foldlM TableSelect.parameter request =
      .ok { request with filters := request.filters ++ filters } := by
  induction h generalizing request with
  | nil =>
      rw [List.append_nil]
      rfl
  | @cons entry filter rest filters hentry _ ih =>
      have hstep : request.parameter entry =
          .ok { request with filters := request.filters ++ [filter] } := by
        rw [request.parameter_of_not_reserved (hcolumns entry List.mem_cons_self), hentry, ok_bind]
      rw [List.foldlM_cons, hstep, ok_bind,
        ih fun entry hentry => hcolumns entry (List.mem_cons_of_mem _ hentry)]
      simp

theorem foldlM_limit {bound : Option I64} (hnone : request.limit = none)
    (h : ∀ n ∈ bound, 0 ≤ n.val) :
    (entryOf "limit" (bound.map fun n => toString n.val)).foldlM TableSelect.parameter request =
      .ok { request with limit := bound } := by
  cases bound with
  | none =>
      obtain ⟨_, _, _, _, limit, _⟩ := request
      obtain rfl : limit = none := hnone
      rfl
  | some n =>
      change (do
        let next ← request.parameter ("limit", toString n.val)
        .ok next) = _
      simp only [TableSelect.parameter, parseNonNegative_toString (h n rfl), ok_bind]

theorem foldlM_offset {bound : Option I64} (hnone : request.offset = none)
    (h : ∀ n ∈ bound, 0 ≤ n.val) :
    (entryOf "offset" (bound.map fun n => toString n.val)).foldlM TableSelect.parameter request =
      .ok { request with offset := bound } := by
  cases bound with
  | none =>
      obtain ⟨_, _, _, _, _, offset⟩ := request
      obtain rfl : offset = none := hnone
      rfl
  | some n =>
      change (do
        let next ← request.parameter ("offset", toString n.val)
        .ok next) = _
      simp only [TableSelect.parameter, parseNonNegative_toString (h n rfl), ok_bind]

end Fold

section Queries

variable {decode : String → List (String × String)} {encode : List (String × String) → String}
  {params : QueryParams} {path : String} {table : QualifiedTable}

theorem exists_parseSelectRequest (hcodec : decode (encode params.toQueryMap) = params.toQueryMap)
    (hpath : QualifiedTable.parse path = .ok table) (hvalid : params.Valid) (h : params.Plain) :
    ∃ selection, parseSelectRequest decode path (RestClient.rawQuery encode (some params)) =
      .ok selection ∧ params.Asks table selection := by
  obtain ⟨orders, horders⟩ := exists_forall₂ h.order
  have hfilters := (forall₂_parseFilter_iff hvalid.filter).2 h.filter
  refine ⟨⟨table, if params.select.getD [] = [] then .all else .columns (params.select.getD []),
    (params.filter.getD []).map fun entry => ⟨entry.1, .eq, entry.2⟩, orders, params.limit,
    params.offset⟩, ?_, ⟨rfl, rfl, rfl, horders, rfl, rfl⟩⟩
  unfold parseSelectRequest
  rw [hpath, ok_bind, parameters_rawQuery hcodec, hvalid.toQueryMap_eq]
  simp only [List.foldlM_append]
  rw [foldlM_select params.select rfl fun name hname => (hvalid.select name hname).1, ok_bind,
    foldlM_columns (fun entry hentry => (hvalid.filter entry hentry).1.2) hfilters, ok_bind,
    foldlM_order rfl horders, ok_bind, foldlM_limit rfl h.limit, ok_bind,
    foldlM_offset rfl h.offset]
  rfl

theorem plain_of_asks (hcodec : decode (encode params.toQueryMap) = params.toQueryMap)
    (hvalid : params.Valid) {selection : TableSelect}
    (hreads : selection.Reads (criteria decode (RestClient.rawQuery encode (some params))))
    (hasks : params.Asks table selection) : params.Plain := by
  rw [criteria_rawQuery encode hcodec hvalid] at hreads
  refine ⟨(forall₂_parseFilter_iff hvalid.filter).1 (hasks.filters ▸ hreads.filters), ?_,
    hasks.limit ▸ hreads.limit, hasks.offset ▸ hreads.offset⟩
  intro entry hentry
  obtain ⟨order, horder⟩ := exists_mem_zip_of_forall₂ hasks.orderBy hentry
  exact ⟨order, List.forall₂_zip hasks.orderBy horder⟩

theorem understoodQuery_iff (encode : List (String × String) → String)
    (hcodec : decode (encode params.toQueryMap) = params.toQueryMap)
    (hpath : QualifiedTable.parse path = .ok table) (hvalid : params.Valid) :
    UnderstoodQuery decode path table params (RestClient.query encode (some params)) ↔
      params.Plain := by
  constructor
  · rintro ⟨selection, hparse, hasks⟩
    obtain ⟨parsed, hparsed, heq⟩ := bind_eq_ok.1 hparse
    obtain rfl := TableRequest.select.inj (Except.ok.inj heq)
    exact plain_of_asks hcodec hvalid (parseSelectRequest_eq_ok hparsed).2 hasks
  · intro hplain
    obtain ⟨selection, hparse, hasks⟩ := exists_parseSelectRequest hcodec hpath hvalid hplain
    exact ⟨selection, bind_eq_ok.2 ⟨selection, hparse, rfl⟩, hasks⟩

theorem understoodDelete_iff (encode : List (String × String) → String)
    (hcodec : decode (encode params.toQueryMap) = params.toQueryMap)
    (hpath : QualifiedTable.parse path = .ok table) (hvalid : params.Valid) :
    UnderstoodDelete decode path table params (RestClient.delete encode (some params)) ↔
      params.filter.getD [] ≠ [] ∧ (∀ entry ∈ params.filter.getD [], '.' ∉ entry.2.toList) ∧
        params.OnlyFilters := by
  have hcriteria := criteria_rawQuery encode hcodec hvalid
  constructor
  · rintro ⟨deletion, hparse, hasks⟩
    obtain ⟨parsed, hparsed, heq⟩ := bind_eq_ok.1 hparse
    obtain rfl := TableRequest.delete.inj (Except.ok.inj heq)
    obtain ⟨-, hfilters, hne⟩ := parseDeleteRequest_eq_ok hparsed
    have hforall := forall₂_of_parseFilters hfilters
    rw [hcriteria] at hforall
    have hempty : params.filter.getD [] ≠ [] := by
      intro hnil
      rw [hnil] at hforall
      exact hne (List.forall₂_nil_left_iff.1 hforall)
    have hselect : params.select.getD [] = [] := by
      by_contra hne
      have := hasks.select
      rw [if_neg hne] at this
      cases this
    have horder : params.order.getD [] = [] := List.forall₂_nil_right_iff.1 hasks.orderBy
    exact ⟨hempty, (forall₂_parseFilter_iff hvalid.filter).1 (hasks.filters ▸ hforall),
      hselect, horder, hasks.limit.symm, hasks.offset.symm⟩
  · rintro ⟨hempty, hdots, honly⟩
    have hfilters := (forall₂_parseFilter_iff hvalid.filter).2 hdots
    rw [← hcriteria, ← mapM_eq_ok_iff, ← parseFilters_eq_mapM, hcriteria] at hfilters
    refine ⟨⟨table, (params.filter.getD []).map fun entry => ⟨entry.1, .eq, entry.2⟩⟩, ?_,
      ⟨rfl, (if_pos honly.select).symm, rfl, ?_, honly.limit.symm, honly.offset.symm⟩⟩
    · refine bind_eq_ok.2 ⟨_, ?_, rfl⟩
      unfold parseDeleteRequest
      rw [hpath, ok_bind, hfilters, ok_bind]
      exact rejectIf_bind_eq_ok.2 ⟨by simpa using hempty, rfl⟩
    · rw [honly.order]
      exact .nil

end Queries

theorem get?_envelope {name : String} (hname : name ≠ "returning") (content : Json)
    (returning : Option (List String)) :
    (OrdMap.ofList ((name, content) :: returningEntry returning)).get? name = some content := by
  have hnodup : (((name, content) :: returningEntry returning).map (·.1)).Nodup := by
    match returning with
    | none | some [] => exact List.nodup_singleton name
    | some (_ :: _) => simpa [returningEntry] using hname
  rw [OrdMap.get?_ofList hnodup, List.lookup_cons_self]

theorem notMem_of_sizeOf_lt {members : List (String × Json)} {name : String} {content : Json}
    (h : sizeOf members < sizeOf content) : (name, content) ∉ members := by
  intro hmem
  have hlt := List.sizeOf_lt_of_mem hmem
  simp only [Prod.mk.sizeOf_spec] at hlt
  omega

section Envelopes

variable {decode : String → List (String × String)} {path : String} {table : QualifiedTable}

theorem not_understoodInsert (body : InsertBody) :
    ¬ UnderstoodInsert decode path table body (RestClient.insert body) := by
  rintro ⟨insertion, hparse, -, hrows⟩
  obtain ⟨parsed, hparsed, heq⟩ := bind_eq_ok.1 hparse
  obtain rfl := TableRequest.insert.inj (Except.ok.inj heq)
  obtain ⟨_, -, hparsed⟩ := bind_eq_ok.1 hparsed
  obtain ⟨rows, henvelope, heq⟩ := bind_eq_ok.1 hparsed
  obtain rfl := Except.ok.inj heq
  obtain rfl := Except.ok.inj henvelope
  obtain ⟨record, hrecords, hrecord⟩ := List.map_eq_singleton_iff.1 hrows.symm
  have hget := get?_envelope (by decide : "records" ≠ "returning")
    (.arr (body.records.map .obj)) body.returning
  rw [← hrecord] at hget
  refine notMem_of_sizeOf_lt ?_ (OrdMap.mem_of_get?_ofList hget)
  rw [hrecords]
  simp only [List.map_cons, List.map_nil, Json.arr.sizeOf_spec, Json.obj.sizeOf_spec,
    List.cons.sizeOf_spec, List.nil.sizeOf_spec]
  omega

theorem not_understoodUpdate (params : QueryParams) (body : UpdateBody)
    (encode : List (String × String) → String) :
    ¬ UnderstoodUpdate decode path table params body
      (RestClient.update encode body (some params)) := by
  rintro ⟨update, hparse, -, hpatch⟩
  obtain ⟨parsed, hparsed, heq⟩ := bind_eq_ok.1 hparse
  obtain rfl := TableRequest.update.inj (Except.ok.inj heq)
  obtain ⟨-, -, -, members, hbody, hmembers⟩ := parseUpdateRequest_eq_ok hparsed
  obtain rfl := Json.obj.inj hbody
  have hget := get?_envelope (by decide : "set" ≠ "returning") (.obj body.set) body.returning
  rw [← hmembers, hpatch] at hget
  refine notMem_of_sizeOf_lt ?_ (OrdMap.mem_of_get?_ofList hget)
  rw [Json.obj.sizeOf_spec]
  omega

end Envelopes

/-- A query is understood exactly when it is plain, a deletion exactly when it has filters, all
of them plain, and nothing else; an insertion or an update never is. -/
theorem rest_exact (decode : String → List (String × String))
    (encode : List (String × String) → String) (path : String) (table : QualifiedTable)
    (hpath : QualifiedTable.parse path = .ok table) (params : QueryParams) (hvalid : params.Valid)
    (hcodec : decode (encode params.toQueryMap) = params.toQueryMap) (insertion : InsertBody)
    (update : UpdateBody) :
    (UnderstoodQuery decode path table params (RestClient.query encode (some params)) ↔
      params.Plain) ∧
    ¬ UnderstoodInsert decode path table insertion (RestClient.insert insertion) ∧
    ¬ UnderstoodUpdate decode path table params update
      (RestClient.update encode update (some params)) ∧
    (UnderstoodDelete decode path table params (RestClient.delete encode (some params)) ↔
      params.filter.getD [] ≠ [] ∧ (∀ entry ∈ params.filter.getD [], '.' ∉ entry.2.toList) ∧
        params.OnlyFilters) :=
  ⟨understoodQuery_iff encode hcodec hpath hvalid, not_understoodInsert insertion,
    not_understoodUpdate params update encode, understoodDelete_iff encode hcodec hpath hvalid⟩

/-- The active users, the latest first, as the client writes them. -/
theorem rest_exact_users :
    UnderstoodQuery (fun _ => [("status", "active"), ("order", "created_at.desc"), ("limit", "10")])
      "users" ⟨none, "users"⟩
      ⟨none, some [("status", "active")], some ["created_at.desc"],
        some ⟨10, by decide, by decide⟩, none⟩
      (.select (some "status=active&order=created_at.desc&limit=10")) := by
  refine (rest_exact _ (fun _ => "status=active&order=created_at.desc&limit=10") "users" _ rfl
    ⟨none, some [("status", "active")], some ["created_at.desc"], some ⟨10, by decide, by decide⟩,
      none⟩ ⟨by simp, ?_, by simp, ?_⟩ (by decide +kernel) ⟨[], none⟩ ⟨[], none⟩).1.2
    ⟨by decide, ?_, by decide, by decide⟩
  · simpa [IsColumn] using ⟨isIdentifier_of_toBool (by decide +kernel), by decide⟩
  · simpa using ⟨"created_at", ⟨isIdentifier_of_toBool (by decide +kernel), by decide⟩,
      .inr ⟨"desc", by decide⟩⟩
  · simpa using ⟨⟨"created_at", true⟩, isIdentifier_of_toBool (by decide +kernel), by decide⟩

/-- A file is not found by its name, and a record is not inserted. -/
theorem not_understood_of_dot :
    (⟨none, some [("name", "a.txt")], none, none, none⟩ : QueryParams).Valid ∧
    ¬ UnderstoodQuery (fun _ => [("name", "a.txt")]) "files" ⟨none, "files"⟩
      ⟨none, some [("name", "a.txt")], none, none, none⟩ (.select (some "name=a.txt")) ∧
    ¬ UnderstoodInsert (fun _ => []) "files" ⟨none, "files"⟩ ⟨[[("name", .str "a.txt")]], none⟩
      (RestClient.insert ⟨[[("name", .str "a.txt")]], none⟩) := by
  have hvalid : (⟨none, some [("name", "a.txt")], none, none, none⟩ : QueryParams).Valid := by
    refine ⟨by simp, ?_, by simp, by simp⟩
    simpa [IsColumn] using ⟨isIdentifier_of_toBool (by decide +kernel), by decide⟩
  refine ⟨hvalid, fun h => ?_, not_understoodInsert _⟩
  have hplain := (understoodQuery_iff (fun _ => "name=a.txt") (by decide +kernel) rfl
    hvalid).1 h
  exact hplain.filter ("name", "a.txt") (by decide) (by decide)

end Evobase
