import Evobase.Host.Records

/-!
# Metadata as they are sent

The tables that are shown are tables of the definition with some of their fields, and the commands
that are offered are commands of the definition with some of their records. Both pass the checks
of a message, and building them does not fail for a caller who keeps the grant.
-/

namespace Evobase

open Foundation

theorem exists_kept {α β : Type} {g : α → β} {l : List α} {os : List (Option β)}
    (h : List.Forall₂ (fun a o => o = none ∨ o = some (g a)) l os) :
    ∃ kept : List α, kept.Sublist l ∧ os.reduceOption = kept.map g := by
  induction h with
  | nil => exact ⟨[], .slnil, rfl⟩
  | @cons a o rest os hhead _ ih =>
      obtain ⟨kept, hkept, heq⟩ := ih
      rcases hhead with rfl | rfl
      · exact ⟨kept, hkept.cons a, by rw [List.reduceOption_cons_of_none, heq]⟩
      · exact ⟨a :: kept, hkept.cons_cons a, by rw [List.reduceOption_cons_of_some, heq, List.map_cons]⟩

theorem forall₂_of_mapM_eq_some {α β : Type} {f : α → Option β} {l : List α} {bs : List β}
    (h : l.mapM f = some bs) : List.Forall₂ (fun a b => f a = some b) l bs := by
  induction l generalizing bs with
  | nil =>
      obtain rfl := Option.some.inj h
      exact .nil
  | cons a rest ih =>
      rw [List.mapM_cons, Option.bind_eq_bind, Option.bind_eq_some_iff] at h
      obtain ⟨b, hb, h⟩ := h
      obtain ⟨tail, htail, h⟩ := Option.bind_eq_some_iff.1 h
      obtain rfl := Option.some.inj h
      exact .cons hb (ih htail)

namespace Wire

theorem name_of_displayName {text : String} (h : DisplayName text) : name text = .ok () := by
  obtain ⟨hne, hsize, hplain⟩ := h
  simp only [name, limit, bind_eq_ok, rejectIf_eq_ok, not_or, gt_iff_lt, not_lt]
  exact ⟨(), ⟨hne, by simp [hplain]⟩, hsize⟩

theorem commandId_text (id : CommandId) : commandId id.text = .ok () := by
  have haccepts := id.wellFormed
  simp only [IdKind.accepts, Bool.and_eq_true, decide_eq_true_eq] at haccepts
  obtain ⟨⟨⟨hsize, hstem⟩, hne⟩, hchars⟩ := haccepts
  have hlength : 4 < id.text.utf8ByteSize := by
    obtain ⟨rest, hrest⟩ : ∃ rest, stripPrefix? IdKind.command.stem id.text = some rest :=
      ⟨_, if_pos hstem⟩
    have htext := stripPrefix?_eq_some.1 hrest
    have hfour : IdKind.command.stem.utf8ByteSize = 4 := by decide +kernel
    rw [htext, String.utf8ByteSize_append, hfour] at hne ⊢
    omega
  have hplain : id.text.toList.all (isWordChar ['_', '-']) = true := by
    rw [List.all_eq_true] at hchars ⊢
    intro c hc
    simpa [isWordChar, isIdChar, or_assoc] using hchars c hc
  simp only [commandId, rejectIf_eq_ok, not_or, not_le, gt_iff_lt, not_lt, Bool.not_eq_false]
  exact ⟨hlength, hsize, hstem, hplain⟩

/-- Fields that are shown together. -/
structure GoodFields (fields : List FieldMetadataDto) : Prop where
  length_le : fields.length ≤ maxFieldsPerTable
  ids : (fields.map (·.fieldId)).Nodup
  names : ∀ field ∈ fields, DisplayName field.name

theorem metadataFields_of_good {fields : List FieldMetadataDto} (h : GoodFields fields) :
    metadataFields fields = .ok () := by
  simp only [metadataFields, limit, bind_eq_ok, rejectIf_eq_ok, gt_iff_lt, not_lt]
  have hids := h.ids
  rw [List.Nodup, List.pairwise_map] at hids
  refine ⟨(), h.length_le, eachAfter_of_pairwise hids fun before field hfield hfresh => ?_⟩
  simp only [bind_eq_ok, rejectIf_eq_ok, List.mem_map, not_exists, not_and]
  exact ⟨(), hfresh, name_of_displayName (h.names field hfield)⟩

end Wire

namespace HostState

def shownTable (spec : RawAppSpec) (design : Bool) (table : RawTable) : TableMetadataDto :=
  tableMetadata design (spec.policies.find? fun policy => policy.tableId = table.id) table

section Tables

variable {spec : RawAppSpec} {design : Bool} {table : RawTable} {kept : List RawTable}

theorem fieldIds_shownTable (spec : RawAppSpec) (design : Bool) (table : RawTable) :
    ((shownTable spec design table).fields.map (·.fieldId)).Sublist (table.fields.map (·.id)) := by
  rw [shownTable, tableMetadata, List.map_map]
  exact List.filter_sublist.map _

theorem goodFields_shownTable (hspec : WellFormed spec) (hsmall : SmallSpec spec)
    (htable : table ∈ spec.tables) : Wire.GoodFields (shownTable spec design table).fields where
  length_le := by
    have hlength := (fieldIds_shownTable spec design table).length_le
    rw [List.length_map, List.length_map] at hlength
    exact hlength.trans (hspec.fields_le table htable)
  ids := by
    refine List.Nodup.sublist (fieldIds_shownTable spec design table) ?_
    rw [List.Nodup, List.pairwise_map]
    exact (hspec.fields_sorted table htable).imp fun h => h.ne
  names field hfield := by
    rw [shownTable, tableMetadata] at hfield
    obtain ⟨raw, hraw, rfl⟩ := List.mem_map.1 hfield
    exact hsmall.fieldNames table htable raw (List.mem_of_mem_filter hraw)

theorem pairwise_tables (hspec : WellFormed spec) (hsmall : SmallSpec spec) :
    spec.tables.Pairwise fun a b =>
      a.id ≠ b.id ∧ (a.fields.map (·.id)).Disjoint (b.fields.map (·.id)) :=
  (hspec.tables_sorted.imp fun h => h.ne).and (List.nodup_flatMap.1 hsmall.fieldIds).2

/-- Tables that are shown pass their checks. -/
theorem eachAfter_shownTables (hspec : WellFormed spec) (hsmall : SmallSpec spec)
    (hkept : kept.Sublist spec.tables) :
    eachAfter Wire.table [] (kept.map (shownTable spec design)) = .ok () := by
  have hpairwise : (kept.map (shownTable spec design)).Pairwise fun a b => a.tableId ≠ b.tableId ∧
      (a.fields.map (·.fieldId)).Disjoint (b.fields.map (·.fieldId)) := by
    rw [List.pairwise_map]
    refine ((pairwise_tables hspec hsmall).sublist hkept).imp fun {a b} h => ⟨h.1, ?_⟩
    intro id ha hb
    exact h.2 ((fieldIds_shownTable spec design a).subset ha)
      ((fieldIds_shownTable spec design b).subset hb)
  refine eachAfter_of_pairwise hpairwise fun before shown hshown hbefore => ?_
  obtain ⟨table, htable, rfl⟩ := List.mem_map.1 hshown
  have hmem := hkept.subset htable
  have hgood : Wire.GoodFields (shownTable spec design table).fields :=
    goodFields_shownTable hspec hsmall hmem
  have hids := hgood.ids
  rw [List.Nodup, List.pairwise_map] at hids
  simp only [Wire.table, bind_eq_ok, rejectIf_eq_ok, List.mem_map, not_exists, not_and]
  refine ⟨(), fun other hother => (hbefore other hother).1, (),
    Wire.name_of_displayName (hsmall.tableNames table hmem), (), Wire.metadataFields_of_good hgood,
    eachAfter_of_pairwise hids fun seen field hfield hfresh => ?_⟩
  rw [rejectIf_eq_ok]
  rintro ⟨earlier, hearlier, hid⟩
  rcases List.mem_append.1 hearlier with hother | hseen
  · obtain ⟨other, hother, hfields⟩ := List.mem_flatMap.1 hother
    have hleft : field.fieldId ∈ other.fields.map (·.fieldId) := hid ▸ List.mem_map_of_mem hfields
    exact (hbefore other hother).2 hleft (List.mem_map_of_mem hfield)
  · exact hfresh earlier hseen hid

theorem sum_fields_shownTables_le (hkept : kept.Sublist spec.tables) :
    ((kept.map (shownTable spec design)).map fun shown => shown.fields.length).sum ≤
      (spec.tables.map fun table => table.fields.length).sum := by
  have hshown : ∀ table, (shownTable spec design table).fields.length ≤ table.fields.length := by
    intro table
    simpa using (fieldIds_shownTable spec design table).length_le
  calc ((kept.map (shownTable spec design)).map fun shown => shown.fields.length).sum
      = (kept.map fun table => (shownTable spec design table).fields.length).sum := by
        rw [List.map_map]
        rfl
    _ ≤ (kept.map fun table => table.fields.length).sum := List.sum_le_sum fun table _ => hshown table
    _ ≤ (spec.tables.map fun table => table.fields.length).sum :=
        (hkept.map _).sum_le_sum fun _ _ => Nat.zero_le _

end Tables

/-- Commands of a definition, each with records that it may be run on. -/
structure OffersRecords (spec : RawAppSpec)
    (declared : List (RawCommand × List RecordId)) : Prop where
  commands : (declared.map (·.1)).Sublist spec.commands
  records : ∀ entry ∈ declared, entry.2.length ≤ maxRecords ∧ entry.2.Nodup

section Commands

variable {spec : RawAppSpec} {tables : List TableMetadataDto} {command : RawCommand}
  {ids : List RecordId} {shown : CommandMetadataDto}

theorem of_commandMetadata (h : commandMetadata spec tables command ids = some shown) :
    shown.commandId = command.commandId.text ∧ shown.name = command.commandId.text ∧
      shown.eligibleRecordIds = ids ∧ ∃ table ∈ tables, List.Forall₂
        (fun input field => field.fieldId = input.fieldId ∧
          ∃ original ∈ table.fields, field.name = original.name)
        command.inputs shown.inputFields := by
  simp only [commandMetadata, Option.bind_eq_bind, Option.bind_eq_some_iff, Option.some.injEq] at h
  obtain ⟨machine, -, table, htable, inputFields, hinputs, rfl⟩ := h
  refine ⟨rfl, rfl, rfl, table, List.mem_of_find?_eq_some htable, ?_⟩
  refine (forall₂_of_mapM_eq_some hinputs).imp fun input field hfield => ?_
  obtain ⟨original, horiginal, rfl⟩ := Option.map_eq_some_iff.1 hfield
  exact ⟨by simpa using List.find?_some horiginal, original, List.mem_of_find?_eq_some horiginal, rfl⟩

/-- A command that is shown passes its checks after commands of other identities. -/
theorem command_of_commandMetadata (hsmall : SmallSpec spec) (hcommand : command ∈ spec.commands)
    (hnames : ∀ table ∈ tables, ∀ field ∈ table.fields, DisplayName field.name)
    (hids : ids.length ≤ maxRecords ∧ ids.Nodup)
    (h : commandMetadata spec tables command ids = some shown) {before : List CommandMetadataDto}
    (hbefore : ∀ other ∈ before, other.commandId ≠ shown.commandId) :
    Wire.command before shown = .ok () := by
  obtain ⟨hid, hname, rfl, table, htable, hinputs⟩ := of_commandMetadata h
  have hgood : Wire.GoodFields shown.inputFields := by
    refine ⟨?_, ?_, fun field hfield => ?_⟩
    · rw [← hinputs.length_eq]
      exact (hsmall.inputs_le command hcommand).trans (by decide)
    · rw [← map_eq_map_of_forall₂ (f := (·.fieldId)) (fun _ _ hfield => hfield.1.symm) hinputs]
      exact hsmall.inputIds command hcommand
    · obtain ⟨input, -, -, original, horiginal, hsame⟩ := exists_left_of_forall₂ hinputs hfield
      exact hsame ▸ hnames table htable original horiginal
  have hrecords := hids.2
  rw [List.Nodup] at hrecords
  simp only [Wire.command, Wire.limit, bind_eq_ok, rejectIf_eq_ok, List.mem_map, not_exists,
    not_and, gt_iff_lt, not_lt]
  refine ⟨(), hbefore, (), hid ▸ Wire.commandId_text _, (),
    hname ▸ Wire.name_of_displayName command.commandId.displayName, (),
    Wire.metadataFields_of_good hgood, (), hids.1,
    eachAfter_of_pairwise hrecords fun seen record _ hfresh => ?_⟩
  rw [rejectIf_eq_ok]
  exact fun hmem => hfresh record hmem rfl

theorem eachAfter_shownCommands (hspec : WellFormed spec) (hsmall : SmallSpec spec)
    (hnames : ∀ table ∈ tables, ∀ field ∈ table.fields, DisplayName field.name)
    {declared : List (RawCommand × List RecordId)} (h : OffersRecords spec declared)
    {commands : List CommandMetadataDto}
    (hcommands : commands = declared.filterMap fun entry =>
      commandMetadata spec tables entry.1 entry.2) :
    commands.length ≤ 64 ∧ eachAfter Wire.command [] commands = .ok () := by
  have hlength : commands.length ≤ 64 := by
    have hkept := h.commands.length_le
    rw [List.length_map] at hkept
    rw [hcommands]
    exact ((List.length_filterMap_le _ _).trans hkept).trans hsmall.commands_le
  have hpairwise : commands.Pairwise fun a b => a.commandId ≠ b.commandId := by
    have hids := hspec.declarations.commandIds.sublist (h.commands.map (·.commandId))
    rw [List.map_map, List.Nodup, List.pairwise_map] at hids
    rw [hcommands, List.pairwise_filterMap]
    refine hids.imp fun {a b} hne shown hshown shown' hshown' => ?_
    rw [(of_commandMetadata hshown).1, (of_commandMetadata hshown').1]
    exact fun htext => hne (Identity.ext_text htext)
  refine ⟨hlength, eachAfter_of_pairwise hpairwise fun before shown hshown hbefore => ?_⟩
  rw [hcommands] at hshown
  obtain ⟨entry, hentry, hmetadata⟩ := List.mem_filterMap.1 hshown
  exact command_of_commandMetadata hsmall (h.commands.subset (List.mem_map_of_mem hentry)) hnames
    (h.records entry hentry) hmetadata hbefore

end Commands

end HostState

end Evobase
