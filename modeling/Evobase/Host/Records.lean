import Evobase.AppSpec.Bounds
import Evobase.Host.Release
import Evobase.Protocol.DtoSize

/-!
# Records as they are sent

A row of valid facts is sent whatever it holds: its references stay in the scope of the host, and
it has no more cells and no longer texts than a message may have. Records that are sent take fewer
nodes than the facts that they are read from, so a list never has too many of them.
-/

namespace Evobase

open Foundation

theorem exists_left_of_forall₂ {α β : Type} {R : α → β → Prop} {l : List α} {m : List β}
    (h : List.Forall₂ R l m) {b : β} (hb : b ∈ m) : ∃ a ∈ l, R a b := by
  induction h with
  | nil => cases hb
  | @cons a _ _ _ hhead _ ih =>
      rcases List.mem_cons.1 hb with rfl | hb
      · exact ⟨a, List.mem_cons_self, hhead⟩
      · obtain ⟨c, hc, hrel⟩ := ih hb
        exact ⟨c, List.mem_cons_of_mem a hc, hrel⟩

namespace HostState

variable {host : HostState} {spec : RawAppSpec} {facts : CheckedRecords} {row : RawRecord}
  {policy : OwnerRolePolicy}

theorem value_of_valid {scope : Scope} {records : List RawRecord} {field : RawField} {value : Value}
    (h : ValidValue scope records field value) :
    ∃ dto, ValueDto.fromDomain value scope = .ok dto ∧ Wire.value dto = .ok () := by
  have hshort := h.short
  cases value with
  | text s =>
      refine ⟨.text s, rfl, ?_⟩
      simpa [Wire.value, Wire.limit, Value.tooLong] using hshort
  | ref reference =>
      obtain ⟨hscope, -⟩ := h.reference reference rfl
      refine ⟨.ref ⟨reference.tableId, reference.recordId⟩, ?_, rfl⟩
      simp [ValueDto.fromDomain, hscope, rejectIf]
  | blank | null | integer _ | bool _ | money _ => exact ⟨_, rfl, rfl⟩

theorem cells_of_mem (hspec : WellFormed spec) (hfacts : facts.ValidFor spec)
    (hrow : row ∈ facts.records) :
    row.values.entries.length ≤ maxFieldsPerTable ∧
      ∀ entry ∈ row.values.entries, ∃ field, ValidValue facts.scope facts.records field entry.2 := by
  obtain ⟨hvalid, hnormal⟩ := (validFor_iff hspec).1 hfacts
  obtain ⟨-, hnormalized⟩ := (normalized_eq_self_iff hvalid.keys).1 hnormal
  have hentries := entries_normalize hspec row
  rw [hnormalized row hrow] at hentries
  obtain ⟨table, htable, hvalues⟩ := (hvalid.each row hrow).table
  have hfields : spec.fieldsOf row.tableId = table.fields := by
    rw [RawAppSpec.fieldsOf, htable]
  rw [hentries, hfields, List.length_map]
  refine ⟨hspec.fields_le table (RawAppSpec.table_some htable).1, fun entry hentry => ?_⟩
  obtain ⟨field, hfield, rfl⟩ := List.mem_map.1 hentry
  exact ⟨field, hvalues field hfield⟩

/-- A record that is sent for a row. -/
structure SentFor (row : RawRecord) (record : RecordDto) : Prop where
  id : record.recordId = row.id
  values : Wire.values record.values = .ok ()
  smaller : record.toJson.nodes + 8 ≤ row.toJson.nodes
  small : record.toJson.nodes ≤ 5 + 10 * maxFieldsPerTable

def SentCell (scope : Scope) (entry : FieldId × Value) (cell : FieldId × ValueDto) : Prop :=
  cell.1 = entry.1 ∧ ValueDto.fromDomain entry.2 scope = .ok cell.2 ∧ Wire.value cell.2 = .ok ()

/-- Cells that are sent for the cells of a map are few, short and not larger. -/
theorem of_sentCells {scope : Scope} {values : OrdMap FieldId Value}
    {cells : List (FieldId × ValueDto)}
    (h : List.Forall₂ (SentCell scope) values.entries cells) :
    (OrdMap.ofList cells).entries = cells ∧ (∀ cell ∈ cells, Wire.value cell.2 = .ok ()) ∧
      (cells.map fun cell => 1 + cell.2.toJson.nodes).sum ≤
        (values.entries.map fun entry => 1 + entry.2.toJson.nodes).sum ∧
      (cells.map fun cell => 1 + cell.2.toJson.nodes).sum ≤ 10 * values.entries.length := by
  have hnames : values.entries.map (·.1) = cells.map (·.1) :=
    map_eq_map_of_forall₂ (fun _ _ hcell => hcell.1.symm) h
  refine ⟨OrdMap.entries_ofList ?_, ?_⟩
  · have hsorted := values.keys_sorted
    rw [OrdMap.keys, hnames, List.pairwise_map] at hsorted
    exact hsorted
  · clear hnames
    generalize values.entries = entries at h ⊢
    induction h with
    | nil => simp
    | cons hhead _ ih =>
        obtain ⟨-, hdomain, hvalue⟩ := hhead
        obtain ⟨hsmaller, hsmall⟩ := ValueDto.nodes_of_fromDomain hdomain
        obtain ⟨hvalues, hsum, hbound⟩ := ih
        refine ⟨List.forall_mem_cons.2 ⟨hvalue, hvalues⟩, ?_, ?_⟩
        · simp only [List.map_cons, List.sum_cons]
          omega
        · simp only [List.map_cons, List.sum_cons, List.length_cons]
          omega

/-- Every stored row can be sent, whatever its policy shows of it. -/
theorem exists_recordDto (hspec : WellFormed spec) (hfacts : facts.ValidFor spec)
    (hscope : facts.scope = host.scope) (hrow : row ∈ facts.records) (policy : OwnerRolePolicy) :
    ∃ record, host.recordDto (policy.view row) = .ok record ∧ SentFor row record := by
  obtain ⟨hcount, hcells⟩ := cells_of_mem hspec hfacts hrow
  let shown := (policy.view row).values
  have hsublist : shown.entries.Sublist row.values.entries := List.filter_sublist
  obtain ⟨cells, hsent⟩ : ∃ cells, List.Forall₂ (SentCell host.scope) shown.entries cells := by
    refine exists_forall₂ fun entry hentry => ?_
    obtain ⟨field, hvalid⟩ := hcells entry (hsublist.subset hentry)
    obtain ⟨dto, hdto, hvalue⟩ := value_of_valid hvalid
    exact ⟨(entry.1, dto), rfl, hscope ▸ hdto, hvalue⟩
  obtain ⟨hentries, hvalues, hsmaller, hsmall⟩ := of_sentCells hsent
  have hlength : shown.entries.length ≤ maxFieldsPerTable := hsublist.length_le.trans hcount
  refine ⟨⟨row.id, .ofList cells⟩, ?_, rfl, ?_, ?_, ?_⟩
  · have hmap : (shown.entries.mapM fun entry => do
        let value ← ValueDto.fromDomain entry.2 host.scope
        .ok (entry.1, value)) = .ok cells := by
      refine mapM_eq_ok_iff.2 (hsent.imp fun entry cell hcell => ?_)
      rw [hcell.2.1, ok_bind, ← hcell.1]
    rw [recordDto, hmap]
    rfl
  · simp only [Wire.values, Wire.limit, bind_eq_ok, rejectIf_eq_ok, each_eq_ok_iff, hentries,
      gt_iff_lt, not_lt, ← hsent.length_eq]
    exact ⟨(), hlength, hvalues⟩
  · have hall : (shown.entries.map fun entry => 1 + entry.2.toJson.nodes).sum ≤
        (row.values.entries.map fun entry => 1 + entry.2.toJson.nodes).sum :=
      (hsublist.map _).sum_le_sum fun _ _ => Nat.zero_le _
    rw [RecordDto.nodes_toJson, ValuesDto.nodes_toJson, hentries, RawRecord.nodes_toJson,
      nodes_valuesToJson]
    omega
  · rw [RecordDto.nodes_toJson, ValuesDto.nodes_toJson, hentries]
    omega

theorem nodes_le_of_sentFor {rows : List RawRecord} {records : List RecordDto}
    (h : List.Forall₂ SentFor rows records) (hrows : rows.Sublist facts.records) :
    (records.map fun record => record.toJson.nodes).sum + 8 * records.length + 1 ≤
      (recordsToJson facts.records).nodes := by
  have hsent : (records.map fun record => record.toJson.nodes).sum + 8 * records.length ≤
      (rows.map fun row => row.toJson.nodes).sum := by
    clear hrows
    induction h with
    | nil => simp
    | cons hhead _ ih =>
        have hsmaller := hhead.smaller
        simp only [List.map_cons, List.sum_cons, List.length_cons]
        omega
  have hall : (rows.map fun row => row.toJson.nodes).sum ≤
      (facts.records.map fun row => row.toJson.nodes).sum :=
    (hrows.map _).sum_le_sum fun _ _ => Nat.zero_le _
  rw [recordsToJson, Json.ofList, Json.nodes, Json.nodesElements_eq_sum, List.map_map]
  simp only [Function.comp_def]
  omega

/-- Two or more records leave more nodes behind than the rest of a list takes; one record has few
of them. -/
theorem nodes_list_le {rows : List RawRecord} {x : ListResponseDto}
    (h : List.Forall₂ SentFor rows x.records) (hrows : rows.Sublist facts.records)
    (hfits : Fits (recordsToJson facts.records)) : x.toJson.nodes ≤ maxWireNodes := by
  have hstored := hfits.nodes
  have hsum := nodes_le_of_sentFor h hrows
  rw [ListResponseDto.nodes_toJson]
  simp only [maxNodes, maxWireNodes] at hstored ⊢
  rcases Nat.lt_or_ge x.records.length 2 with hfew | hmany
  · have hbound : (x.records.map fun record => record.toJson.nodes).sum ≤
        (x.records.map fun record => record.toJson.nodes).length •
          (5 + 10 * maxFieldsPerTable) := by
      refine List.sum_le_card_nsmul _ _ fun n hn => ?_
      obtain ⟨record, hrecord, rfl⟩ := List.mem_map.1 hn
      obtain ⟨row, -, hsent⟩ := exists_left_of_forall₂ h hrecord
      exact hsent.small
    rw [List.length_map, smul_eq_mul] at hbound
    have hone : x.records.length * (5 + 10 * maxFieldsPerTable) ≤ 5 + 10 * maxFieldsPerTable :=
      (Nat.mul_le_mul_right _ (Nat.lt_succ_iff.1 hfew)).trans_eq (one_mul _)
    simp only [maxFieldsPerTable] at hbound hone
    omega
  · omega

theorem exists_listResponse {snapshot : Snapshot} {projection : CheckedProjection}
    {context : TrustedContext} (table : TableId) {limit : Nat} (hspec : WellFormed spec)
    (hfacts : facts.ValidFor spec) (hscope : facts.scope = host.scope)
    (hidentity : Wire.releaseId snapshot.specIdentity = .ok ()) (hlimit : limit ≤ maxListLimit)
    (hrows : projection.rows = policy.visibleRows context facts) :
    ∃ response, host.listResponse snapshot table limit projection = .ok response ∧
      response.apiVersion = apiVersionNumber ∧ response.validate = .ok () ∧
      response.toJson.nodes ≤ maxWireNodes := by
  let rows := (facts.records.filter fun row => policy.allows context row .read).take limit
  have hsublist : rows.Sublist facts.records :=
    (List.take_sublist _ _).trans List.filter_sublist
  obtain ⟨records, hsent⟩ : ∃ records, List.Forall₂ (fun row record =>
      host.recordDto (policy.view row) = .ok record ∧ SentFor row record) rows records :=
    exists_forall₂ fun row hrow =>
      exists_recordDto hspec hfacts hscope (hsublist.subset hrow) policy
  have hsentFor : List.Forall₂ SentFor rows records := hsent.imp fun _ _ h => h.2
  have hmap : (projection.rows.take limit).mapM host.recordDto = .ok records := by
    rw [hrows, OwnerRolePolicy.visibleRows, ← List.map_take, mapM_eq_ok_iff,
      List.forall₂_map_left_iff]
    exact hsent.imp fun _ _ h => h.1
  have hids : (records.map (·.recordId)).Nodup := by
    have hshown : (policy.visibleRows context facts).Pairwise fun a b => a.id < b.id :=
      pairwise_visibleRows hspec hfacts
    rw [OwnerRolePolicy.visibleRows, List.pairwise_map] at hshown
    have hsame : rows.map (·.id) = records.map (·.recordId) :=
      map_eq_map_of_forall₂ (fun _ _ h => h.id.symm) hsentFor
    rw [← hsame, List.Nodup, List.pairwise_map]
    exact (hshown.sublist (List.take_sublist _ _)).imp fun h => h.ne
  have hlength : records.length ≤ maxListLimit := by
    rw [← hsentFor.length_eq]
    exact (List.length_take_le _ _).trans hlimit
  refine ⟨_, by rw [listResponse, hmap]; rfl, rfl, ?_, ?_⟩
  · simp only [ListResponseDto.validate, Wire.limit, bind_eq_ok, rejectIf_eq_ok, gt_iff_lt, not_lt]
    refine ⟨(), hidentity, (), hlength, ?_⟩
    rw [List.Nodup, List.pairwise_map] at hids
    refine eachAfter_of_pairwise hids fun before record hrecord hfresh => ?_
    obtain ⟨row, -, hrow⟩ := exists_left_of_forall₂ hsentFor hrecord
    simp only [bind_eq_ok, rejectIf_eq_ok, List.mem_map, not_exists, not_and]
    exact ⟨(), hfresh, hrow.values⟩
  · exact nodes_list_le hsentFor hsublist ((validFor_iff hspec).1 hfacts).1.fits

end HostState

end Evobase
