import Evobase.Builder.Page
import Evobase.Foundation.Run

/-!
# Saves of many tabs

Every tab of the Builder keeps the bytes that it loaded or saved last, the snapshot that they stand
for, and its draft. A save replaces the stored bytes under a lock when they are still those of the
tab. The history notes what the tabs load, write and report; the tabs do not read it.

The lock may be granted late or never, and a tab that failed to load never saves. What is known of
a run is `BrowserFacts`: for every tab, what it has seen last and what it has written last, read
off the history. The revision of a write is that of the bytes it replaces, or the next one.
-/

namespace Evobase.Builder

open Foundation

def exampleSpec : RawAppSpec where
  version := U32.one
  appId := ⟨"app_commerce", by decide⟩
  name := "Commerce"
  tables := [
    ⟨⟨"tbl_customers", by decide⟩, "Customer", [
      ⟨⟨"fld_customer_name", by decide⟩, "Name", true, .text⟩,
      ⟨⟨"fld_customer_owner", by decide⟩, "Owner", true, .text⟩]⟩,
    ⟨⟨"tbl_orders", by decide⟩, "Order", [
      ⟨⟨"fld_order_customer", by decide⟩, "Customer", true, .ref ⟨"tbl_customers", by decide⟩⟩,
      ⟨⟨"fld_order_owner", by decide⟩, "Owner", true, .text⟩,
      ⟨⟨"fld_order_state", by decide⟩, "State", true, .text⟩,
      ⟨⟨"fld_order_notes", by decide⟩, "Notes", false, .text⟩]⟩,
    ⟨⟨"tbl_order_lines", by decide⟩, "OrderLine", [
      ⟨⟨"fld_line_order", by decide⟩, "Order", true, .ref ⟨"tbl_orders", by decide⟩⟩,
      ⟨⟨"fld_line_product", by decide⟩, "Product", true, .ref ⟨"tbl_products", by decide⟩⟩,
      ⟨⟨"fld_line_quantity", by decide⟩, "Quantity", true, .integer⟩,
      ⟨⟨"fld_line_price", by decide⟩, "Captured price", true, .money⟩]⟩,
    ⟨⟨"tbl_products", by decide⟩, "Product", [
      ⟨⟨"fld_product_name", by decide⟩, "Name", true, .text⟩,
      ⟨⟨"fld_product_price", by decide⟩, "Price", true, .money⟩]⟩]
  captureRules := [{
    lineTable := ⟨"tbl_order_lines", by decide⟩
    productRefField := ⟨"fld_line_product", by decide⟩
    productPriceField := ⟨"fld_product_price", by decide⟩
    capturedPriceField := ⟨"fld_line_price", by decide⟩ }]
  policies := []
  submitRules := []
  constraints := []
  stateMachines := []
  commands := []

def exampleRecords (scope : Scope) : List RawRecord :=
  [⟨scope, ⟨"rec_customer_1", by decide⟩, ⟨"tbl_customers", by decide⟩, .ofList [
      (⟨"fld_customer_name", by decide⟩, .text "Ada"),
      (⟨"fld_customer_owner", by decide⟩, .text "actor_alice")]⟩,
    ⟨scope, ⟨"rec_order_1", by decide⟩, ⟨"tbl_orders", by decide⟩, .ofList [
      (⟨"fld_order_customer", by decide⟩,
        .ref ⟨scope, ⟨"tbl_customers", by decide⟩, ⟨"rec_customer_1", by decide⟩⟩),
      (⟨"fld_order_owner", by decide⟩, .text "actor_alice"),
      (⟨"fld_order_state", by decide⟩, .text "draft")]⟩,
    ⟨scope, ⟨"rec_product_1", by decide⟩, ⟨"tbl_products", by decide⟩, .ofList [
      (⟨"fld_product_name", by decide⟩, .text "Widget"),
      (⟨"fld_product_price", by decide⟩, .money ⟨1250, by decide, by decide⟩)]⟩,
    ⟨scope, ⟨"rec_line_1", by decide⟩, ⟨"tbl_order_lines", by decide⟩, .ofList [
      (⟨"fld_line_order", by decide⟩,
        .ref ⟨scope, ⟨"tbl_orders", by decide⟩, ⟨"rec_order_1", by decide⟩⟩),
      (⟨"fld_line_product", by decide⟩,
        .ref ⟨scope, ⟨"tbl_products", by decide⟩, ⟨"rec_product_1", by decide⟩⟩),
      (⟨"fld_line_quantity", by decide⟩, .integer ⟨2, by decide, by decide⟩),
      (⟨"fld_line_price", by decide⟩, .money ⟨1250, by decide, by decide⟩)]⟩]

/-- What a tab shows when nothing is stored. -/
def defaultSnapshot : Snapshot :=
  ⟨U64.zero, exampleSpec, exampleRecords (scopeFor exampleSpec)⟩

inductive SaveFault where
  | unsupported
  | conflict
  | other
deriving DecidableEq, Repr

/-- What the browser refuses: its locks are missing, or the store takes no value. -/
inductive BrowserFault where
  | noLocks
  | refused
deriving DecidableEq, Repr

/-- The section under the lock: compare the stored bytes and set them. The empty text stands for an
empty store. -/
def writeLocalSnapshot (fault : Option BrowserFault) (stored : Option String)
    (expected serialized : String) : Except SaveFault String × Option String :=
  if fault = some .noLocks then (.error .unsupported, stored)
  else if stored ≠ (if expected = "" then none else some expected) then (.error .conflict, stored)
  else if fault = some .refused then (.error .other, stored)
  else (.ok serialized, some serialized)

/-- What can be edited. -/
structure Draft where
  spec : RawAppSpec
  records : List RawRecord
  appNameInput : String
  buffers : Buffers
  errors : Buffers
  status : Status
  locale : Bool
  paused : Bool
  composing : Bool

/-- A save that waits for the lock, or that has its answer. -/
inductive SaveTask where
  | waiting (expected raw : String) (draft : Snapshot)
  | answered (raw : String) (draft : Snapshot) (result : Except SaveFault String)

structure Tab where
  draft : Draft
  saved : Snapshot
  persistedBytes : Option String
  restorationFailed : Bool
  saving : Bool
  task : Option SaveTask

def Draft.ofSnapshot (snapshot : Snapshot) (status : Status) : Draft :=
  ⟨snapshot.spec, snapshot.records, snapshot.spec.name, .empty, .empty, status, true, false, false⟩

/-- The snapshot that stored bytes stand for, and whether loading it failed. The store may be
unreadable. -/
def initialLoad (reader : JsonReader) : Option (Option String) → Snapshot × Bool
  | some (some raw) =>
      match decodeSaved reader raw with
      | .ok snapshot => (snapshot, false)
      | .error _ => (defaultSnapshot, true)
  | some none => (defaultSnapshot, false)
  | none => (defaultSnapshot, true)

def Tab.load (reader : JsonReader) (storedBytes : Option (Option String)) : Tab :=
  let (initial, loadFailed) := initialLoad reader storedBytes
  { draft := .ofSnapshot initial (if loadFailed then .storageError else .clean)
    saved := initial
    persistedBytes := storedBytes.join
    restorationFailed := loadFailed
    saving := false
    task := none }

namespace Tab

def withStatus (tab : Tab) (status : Status) : Tab :=
  { tab with draft := { tab.draft with status } }

/-- The draft with its revision: the next one when the content changes, if there is one. -/
def nextSnapshot (baseline draft : Snapshot) : Option Snapshot :=
  if sameContent draft baseline then some draft
  else (draft.revision.checkedAdd U64.one).map fun revision => { draft with revision }

/-- The click on the button that saves, up to the request of the lock. -/
def save (tab : Tab) : Tab :=
  if tab.restorationFailed ∨ tab.draft.paused ∨ tab.draft.composing ∨ tab.saving then tab
  else
    let definition := { tab.draft.spec with name := tab.draft.appNameInput }
    match candidate definition tab.draft.records tab.draft.buffers tab.draft.locale with
    | .error (.fail diagnostics) =>
        { tab with draft := { tab.draft with errors := diagnostics, status := .invalid } }
    | .error _ => tab
    | .ok next =>
        match nextSnapshot tab.saved ⟨tab.saved.revision, definition, next⟩ with
        | none => tab.withStatus .storageError
        | some draft =>
            match encodeSaved draft with
            | .error _ => tab.withStatus .storageError
            | .ok raw =>
                { tab.withStatus .saving with
                  saving := true
                  task := some (.waiting (tab.persistedBytes.getD "") raw draft) }

/-- What the answer of the lock makes of the tab. The answer may not be readable. -/
def finish (reader : JsonReader) (tab : Tab) (raw : String) (draft : Snapshot)
    (result : Except SaveFault String) (readable : Bool) : Tab :=
  let tab := { tab with saving := false, task := none }
  match result with
  | .ok value =>
      match if readable then (decodeSaved reader value).toOption else none with
      | some receipt =>
          if receipt.revision = draft.revision ∧ sameContent receipt draft = true then
            { tab with
              persistedBytes := some raw
              saved := receipt
              draft := { tab.draft with
                spec := receipt.spec
                records := receipt.records
                buffers := .empty
                errors := .empty
                status := .saved } }
          else tab.withStatus .storageError
      | none => tab.withStatus .storageError
  | .error .conflict => tab.withStatus .conflict
  | .error .unsupported => tab.withStatus .unsupported
  | .error .other => tab.withStatus .storageError

end Tab

/-- What is noted: the bytes that a tab loads, the bytes that it finds and replaces under the lock,
and the bytes that it reports as saved. -/
inductive Event where
  | loaded (tab : Nat) (bytes : Option String)
  | wrote (tab : Nat) (found : Option String) (raw : String)
  | reported (tab : Nat) (raw : String)
deriving DecidableEq

structure Browser where
  stored : Option String
  tabs : Nat → Option Tab
  history : List Event

inductive Action where
  | open (tab : Nat) (readable : Bool)
  | edit (tab : Nat) (draft : Draft)
  | save (tab : Nat)
  | lock (tab : Nat) (fault : Option BrowserFault)
  | answer (tab : Nat) (readable : Bool)

namespace Browser

def start (stored : Option String) : Browser := ⟨stored, fun _ => none, []⟩

def setTab (browser : Browser) (i : Nat) (tab : Tab) : Browser :=
  { browser with tabs := Function.update browser.tabs i (some tab) }

def note (browser : Browser) (event : Event) : Browser :=
  { browser with history := browser.history ++ [event] }

/-- One step of a tab. Nothing on the page takes the last table out of a definition. -/
def step (reader : JsonReader) (browser : Browser) : Action → Option Browser
  | .open i readable =>
      match browser.tabs i with
      | some _ => none
      | none =>
          if readable then
            some ((browser.setTab i (.load reader (some browser.stored))).note
              (.loaded i browser.stored))
          else some (browser.setTab i (.load reader none))
  | .edit i draft => do
      let tab ← browser.tabs i
      if draft.spec.tables = [] then none else some (browser.setTab i { tab with draft })
  | .save i => do
      let tab ← browser.tabs i
      some (browser.setTab i tab.save)
  | .lock i fault => do
      let tab ← browser.tabs i
      match tab.task with
      | some (.waiting expected raw draft) =>
          let (result, stored) := writeLocalSnapshot fault browser.stored expected raw
          let next := browser.setTab i { tab with task := some (.answered raw draft result) }
          match result with
          | .ok _ => some ({ next with stored }.note (.wrote i browser.stored raw))
          | .error _ => some { next with stored }
      | _ => none
  | .answer i readable => do
      let tab ← browser.tabs i
      match tab.task with
      | some (.answered raw draft result) =>
          let next := tab.finish reader raw draft result readable
          if next.draft.status = .saved then some ((browser.setTab i next).note (.reported i raw))
          else some (browser.setTab i next)
      | _ => none

end Browser

namespace Event

def tab : Event → Nat
  | .loaded i _ => i
  | .wrote i _ _ => i
  | .reported i _ => i

def written : Event → Option String
  | .wrote _ _ raw => some raw
  | _ => none

/-- The bytes that the tab loads or reports as saved. -/
def seenBy (i : Nat) : Event → Option (Option String)
  | .loaded j bytes => if j = i then some bytes else none
  | .wrote _ _ _ => none
  | .reported j raw => if j = i then some (some raw) else none

def writtenBy (i : Nat) : Event → Option String
  | .wrote j _ raw => if j = i then some raw else none
  | _ => none

def reportedBy (i : Nat) : Event → Option String
  | .reported j raw => if j = i then some raw else none
  | _ => none

variable {event : Event} {i : Nat}

theorem seenBy_of_ne (h : event.tab ≠ i) : event.seenBy i = none := by
  cases event with
  | loaded j bytes => exact if_neg h
  | wrote j found raw => rfl
  | reported j raw => exact if_neg h

theorem writtenBy_of_ne (h : event.tab ≠ i) : event.writtenBy i = none := by
  cases event with
  | wrote j found raw => exact if_neg h
  | loaded j bytes => rfl
  | reported j raw => rfl

theorem reportedBy_of_ne (h : event.tab ≠ i) : event.reportedBy i = none := by
  cases event with
  | reported j raw => exact if_neg h
  | loaded j bytes => rfl
  | wrote j found raw => rfl

theorem written_of_writtenBy {raw : String} (h : event.writtenBy i = some raw) :
    event.written = some raw := by
  cases event with
  | wrote j found written =>
      rw [writtenBy] at h
      split_ifs at h
      exact h
  | loaded j bytes => cases h
  | reported j raw => cases h

end Event

def storedAfter (first : Option String) (history : List Event) : Option String :=
  (latest Event.written history).or first

section History

variable {first : Option String} {history : List Event}

theorem storedAfter_append_singleton (event : Event) :
    storedAfter first (history ++ [event]) = event.written.or (storedAfter first history) := by
  rw [storedAfter, latest_append_singleton, Option.or_assoc]
  rfl

theorem storedAfter_append_ne_none (h : storedAfter first history ≠ none) (more : List Event) :
    storedAfter first (history ++ more) ≠ none := by
  rw [storedAfter, latest_append, Option.or_assoc]
  cases latest Event.written more with
  | none => exact h
  | some raw => simp

theorem latest_eq_none_of_absent {β : Type} {f : Event → Option β} {i : Nat}
    (hf : ∀ event : Event, event.tab ≠ i → f event = none) (h : ∀ event ∈ history, event.tab ≠ i) :
    latest f history = none := by
  rw [latest, List.findSome?_eq_none_iff]
  exact fun event hevent => hf event (h event (List.mem_reverse.1 hevent))

end History

/-- The revision of the draft is the one of the snapshot before it, or the next one when the
content is another. -/
def Follows (previous draft : Snapshot) : Prop :=
  if sameContent draft previous = true then draft.revision = previous.revision
  else draft.revision.val = previous.revision.val + 1

theorem sameContent_comm (a b : Snapshot) : sameContent a b = sameContent b a := by
  unfold sameContent
  cases canonicalTexts a with
  | error halt => cases canonicalTexts b <;> rfl
  | ok x =>
      cases canonicalTexts b with
      | error halt => rfl
      | ok y => exact decide_eq_decide.2 eq_comm

theorem sameContent_trans {a b c : Snapshot} (hab : sameContent a b = true)
    (hbc : sameContent b c = true) : sameContent a c = true := by
  unfold sameContent at *
  cases ha : canonicalTexts a with
  | error halt => rw [ha] at hab; cases hab
  | ok x =>
      cases hb : canonicalTexts b with
      | error halt => rw [ha, hb] at hab; cases hab
      | ok y =>
          cases hc : canonicalTexts c with
          | error halt => rw [hb, hc] at hbc; cases hbc
          | ok z =>
              rw [ha, hb] at hab
              rw [hb, hc] at hbc
              exact decide_eq_true ((of_decide_eq_true hab).trans (of_decide_eq_true hbc))

theorem Follows.congr {previous draft next : Snapshot} (h : Follows previous draft)
    (hrevision : next.revision = draft.revision) (hsame : sameContent next draft = true) :
    Follows previous next := by
  have hcontent : sameContent next previous = true ↔ sameContent draft previous = true :=
    ⟨sameContent_trans (sameContent_comm next draft ▸ hsame), sameContent_trans hsame⟩
  unfold Follows at *
  rw [hrevision]
  simpa only [hcontent] using h

theorem follows_nextSnapshot {baseline draft next : Snapshot}
    (hrevision : draft.revision = baseline.revision)
    (h : Tab.nextSnapshot baseline draft = some next) :
    next.spec = draft.spec ∧ Follows baseline next := by
  unfold Tab.nextSnapshot at h
  split_ifs at h with hsame
  · obtain rfl := Option.some.inj h
    exact ⟨rfl, (if_pos hsame).mpr hrevision⟩
  · obtain ⟨revision, hadd, rfl⟩ := Option.map_eq_some_iff.1 h
    rw [Bounded.checkedAdd_eq_some, U64.one_val, hrevision] at hadd
    refine ⟨rfl, (if_neg ?_).mpr hadd⟩
    exact hsame

/-- A write finds the bytes that its tab loaded or reported last, and leaves the text of a draft
that follows the snapshot of these bytes. -/
structure WriteFacts (reader : JsonReader) (first : Option String) (before : List Event) (i : Nat)
    (found : Option String) (raw : String) : Prop where
  seen : latest (Event.seenBy i) before = some found
  stored : storedAfter first before = found
  snapshot : ∃ draft, draft.spec.tables ≠ [] ∧ encodeSaved draft = .ok raw ∧
    ∀ old, found = some old → ∃ previous, decodeSaved reader old = .ok previous ∧
      Follows previous draft

def EventFacts (reader : JsonReader) (first : Option String) (before : List Event) : Event → Prop
  | .loaded _ bytes => storedAfter first before = bytes
  | .wrote i found raw => WriteFacts reader first before i found raw
  | .reported i raw => latest (Event.writtenBy i) before = some raw

/-- The save of a tab is of its draft as it was, for the bytes of the tab. -/
def TaskFacts (history : List Event) (i : Nat) (tab : Tab) : SaveTask → Prop
  | .waiting expected raw draft => expected = tab.persistedBytes.getD "" ∧
      draft.spec.tables ≠ [] ∧ encodeSaved draft = .ok raw ∧ Follows tab.saved draft
  | .answered raw draft result => draft.spec.tables ≠ [] ∧ encodeSaved draft = .ok raw ∧
      ∀ value, result = .ok value → value = raw ∧ latest (Event.writtenBy i) history = some raw

structure TabFacts (reader : JsonReader) (history : List Event) (i : Nat) (tab : Tab) : Prop where
  tables : tab.draft.spec.tables ≠ []
  seen : tab.restorationFailed = false →
    latest (Event.seenBy i) history = some tab.persistedBytes
  saved : tab.restorationFailed = false → ∀ raw, tab.persistedBytes = some raw →
    decodeSaved reader raw = .ok tab.saved
  silent : tab.restorationFailed = true →
    tab.task = none ∧ latest (Event.writtenBy i) history = none
  reported : ∀ raw, latest (Event.reportedBy i) history = some raw →
    tab.persistedBytes = some raw ∧ decodeSaved reader raw = .ok tab.saved
  task : ∀ task, tab.task = some task → TaskFacts history i tab task

structure BrowserFacts (reader : JsonReader) (first : Option String) (browser : Browser) : Prop where
  stored : browser.stored = storedAfter first browser.history
  events : EachEntry (EventFacts reader first) browser.history
  tabs : ∀ i tab, browser.tabs i = some tab → TabFacts reader browser.history i tab
  absent : ∀ i, browser.tabs i = none → ∀ event ∈ browser.history, event.tab ≠ i

section Facts

variable {reader : JsonReader} {first : Option String} {browser next : Browser} {i : Nat} {tab : Tab}
  {history : List Event}

/-- What another tab does leaves a tab as it is. -/
theorem TabFacts.append (h : TabFacts reader history i tab) {event : Event} (hevent : event.tab ≠ i) :
    TabFacts reader (history ++ [event]) i tab where
  tables := h.tables
  seen hloaded := by
    rw [latest_append_singleton, Event.seenBy_of_ne hevent, Option.none_or, h.seen hloaded]
  saved := h.saved
  silent hfailed := by
    rw [latest_append_singleton, Event.writtenBy_of_ne hevent, Option.none_or]
    exact h.silent hfailed
  reported raw hraw := by
    rw [latest_append_singleton, Event.reportedBy_of_ne hevent, Option.none_or] at hraw
    exact h.reported raw hraw
  task task htask := by
    have hfacts := h.task task htask
    cases task with
    | waiting expected raw draft => exact hfacts
    | answered raw draft result =>
        refine ⟨hfacts.1, hfacts.2.1, fun value hvalue => ?_⟩
        rw [latest_append_singleton, Event.writtenBy_of_ne hevent, Option.none_or]
        exact hfacts.2.2 value hvalue

theorem storedAfter_ne_none_of_seen (hevents : EachEntry (EventFacts reader first) history)
    {raw : String} (h : latest (Event.seenBy i) history = some (some raw)) :
    storedAfter first history ≠ none := by
  obtain ⟨before, event, after, rfl, hseen⟩ := exists_of_latest h
  have hfacts := hevents before event after rfl
  cases event with
  | wrote j found written => cases hseen
  | loaded j bytes =>
      rw [Event.seenBy] at hseen
      split_ifs at hseen
      obtain rfl := Option.some.inj hseen
      have hstored : storedAfter first before = some raw := hfacts
      exact storedAfter_append_ne_none (by rw [hstored]; simp) _
  | reported j written =>
      have hwritten : latest (Event.writtenBy j) before = some written := hfacts
      obtain ⟨pre, event, post, rfl, hby⟩ := exists_of_latest hwritten
      have hstored : storedAfter first (pre ++ [event]) ≠ none := by
        rw [storedAfter_append_singleton, Event.written_of_writtenBy hby]
        simp
      have hlater := storedAfter_append_ne_none hstored (post ++ Event.reported j written :: after)
      simpa using hlater

theorem BrowserFacts.setTab (h : BrowserFacts reader first browser)
    (htab : TabFacts reader browser.history i tab) :
    BrowserFacts reader first (browser.setTab i tab) where
  stored := h.stored
  events := h.events
  tabs j other hother := by
    by_cases hj : j = i
    · subst hj
      obtain rfl : tab = other := by simpa [Browser.setTab] using hother
      exact htab
    · exact h.tabs j other (by simpa [Browser.setTab, hj] using hother)
  absent j hnone := by
    by_cases hj : j = i
    · subst hj
      simp [Browser.setTab] at hnone
    · exact h.absent j (by simpa [Browser.setTab, hj] using hnone)

/-- A change of one tab that notes an event of the tab, which may set the store. -/
theorem BrowserFacts.setTab_note (h : BrowserFacts reader first browser) {event : Event}
    (hevent : event.tab = i) (hfacts : EventFacts reader first browser.history event)
    (htab : TabFacts reader (browser.history ++ [event]) i tab) :
    BrowserFacts reader first { browser.setTab i tab with
      stored := event.written.or browser.stored
      history := browser.history ++ [event] } where
  stored := by rw [storedAfter_append_singleton, h.stored]
  events := h.events.append hfacts
  tabs j other hother := by
    by_cases hj : j = i
    · subst hj
      obtain rfl : tab = other := by simpa [Browser.setTab] using hother
      exact htab
    · have hfacts := h.tabs j other (by simpa [Browser.setTab, hj] using hother)
      exact hfacts.append (hevent ▸ Ne.symm hj)
  absent j hnone other hother := by
    by_cases hj : j = i
    · subst hj
      simp [Browser.setTab] at hnone
    · rcases List.mem_append.1 hother with hmem | hlast
      · exact h.absent j (by simpa [Browser.setTab, hj] using hnone) other hmem
      · rw [List.mem_singleton.1 hlast, hevent]
        exact Ne.symm hj

theorem tables_of_decodeSaved {raw : String} {snapshot : Snapshot}
    (h : decodeSaved reader raw = .ok snapshot) : snapshot.spec.tables ≠ [] := by
  simp only [decodeSaved, bind_eq_ok, rejectIf_eq_ok, Except.ok.injEq] at h
  obtain ⟨-, -, -, -, -, -, spec, -, -, htables, -, -, -, -, rfl⟩ := h
  exact htables

theorem BrowserFacts.opened (h : BrowserFacts reader first browser) (hnew : browser.tabs i = none) :
    BrowserFacts reader first ((browser.setTab i (.load reader (some browser.stored))).note
        (.loaded i browser.stored)) ∧
      BrowserFacts reader first (browser.setTab i (.load reader none)) := by
  have habsent := h.absent i hnew
  have hreported : latest (Event.reportedBy i) browser.history = none :=
    latest_eq_none_of_absent (fun _ => Event.reportedBy_of_ne) habsent
  have hwritten : latest (Event.writtenBy i) browser.history = none :=
    latest_eq_none_of_absent (fun _ => Event.writtenBy_of_ne) habsent
  have htables : ∀ bytes, (initialLoad reader bytes).1.spec.tables ≠ [] := by
    intro bytes
    unfold initialLoad
    split
    · split
      · rename_i snapshot hdecode
        exact tables_of_decodeSaved hdecode
      · simp [defaultSnapshot, exampleSpec]
    · simp [defaultSnapshot, exampleSpec]
    · simp [defaultSnapshot, exampleSpec]
  have hloadedFacts : EventFacts reader first browser.history (.loaded i browser.stored) :=
    h.stored.symm
  have hof : (Event.loaded i browser.stored).tab = i := rfl
  constructor
  · refine h.setTab_note hof hloadedFacts ⟨htables (some browser.stored), fun _ => ?_,
      fun hloaded raw hraw => ?_, fun _ => ⟨rfl, ?_⟩, fun raw hraw => ?_,
      fun _ htask => by cases htask⟩
    · rw [latest_append_singleton, Event.seenBy, if_pos rfl]
      rfl
    · have hstored : browser.stored = some raw := hraw
      change (initialLoad reader (some browser.stored)).2 = false at hloaded
      change _ = Except.ok (initialLoad reader (some browser.stored)).1
      rw [hstored] at hloaded ⊢
      unfold initialLoad at hloaded ⊢
      dsimp only at hloaded ⊢
      split at hloaded
      · rename_i snapshot hdecode
        rw [hdecode]
      · cases hloaded
    · rw [latest_append_singleton, hwritten]
      rfl
    · rw [latest_append_singleton, hreported] at hraw
      cases hraw
  · refine h.setTab ⟨htables none, fun hloaded => ?_, fun hloaded => ?_, fun _ => ⟨rfl, hwritten⟩,
      fun raw hraw => ?_, fun _ htask => by cases htask⟩
    · cases hloaded
    · cases hloaded
    · rw [hreported] at hraw
      cases hraw

theorem TabFacts.save (h : TabFacts reader history i tab) : TabFacts reader history i tab.save := by
  unfold Tab.save
  split_ifs with hlocked
  · exact h
  rw [not_or, Bool.not_eq_true] at hlocked
  dsimp only
  split
  · exact { h with tables := h.tables, task := h.task }
  · exact h
  · rename_i rows hcandidate
    split
    · exact { h with tables := h.tables, task := h.task }
    · rename_i draft hdraft
      obtain ⟨hspec, hfollows⟩ := follows_nextSnapshot (by rfl) hdraft
      split
      · exact { h with tables := h.tables, task := h.task }
      · rename_i raw hraw
        have htables : draft.spec.tables ≠ [] := hspec ▸ h.tables
        refine ⟨h.tables, h.seen, h.saved, fun hfailed => ?_, h.reported, fun task htask => ?_⟩
        · cases hlocked.1.symm.trans hfailed
        · obtain rfl := Option.some.inj htask
          exact ⟨rfl, htables, hraw, hfollows⟩

theorem writeLocalSnapshot_cases (fault : Option BrowserFault) (stored : Option String)
    (expected serialized : String) :
    (∃ e, writeLocalSnapshot fault stored expected serialized = (.error e, stored)) ∨
      (stored = if expected = "" then none else some expected) ∧
        writeLocalSnapshot fault stored expected serialized = (.ok serialized, some serialized) := by
  unfold writeLocalSnapshot
  generalize (if expected = "" then none else some expected) = found
  split_ifs with hlocks hconflict hrefused
  · exact .inl ⟨_, rfl⟩
  · exact .inl ⟨_, rfl⟩
  · exact .inl ⟨_, rfl⟩
  · exact .inr ⟨not_not.1 hconflict, rfl⟩

theorem BrowserFacts.locked (h : BrowserFacts reader first browser) (htab : browser.tabs i = some tab)
    {expected raw : String} {draft : Snapshot} (htask : tab.task = some (.waiting expected raw draft))
    {fault : Option BrowserFault} (hstep : browser.step reader (.lock i fault) = some next) :
    BrowserFacts reader first next := by
  have hfacts := h.tabs i tab htab
  obtain ⟨hexpected, htables, hraw, hfollows⟩ := hfacts.task _ htask
  have hrestored : tab.restorationFailed = false := by
    cases hfailed : tab.restorationFailed with
    | false => rfl
    | true => cases htask.symm.trans (hfacts.silent hfailed).1
  simp only [Browser.step, htab, htask, Option.bind_eq_bind, Option.bind_some] at hstep
  rcases writeLocalSnapshot_cases fault browser.stored expected raw with
    ⟨e, hwrite⟩ | ⟨hfound, hwrite⟩
  · rw [hwrite] at hstep
    obtain rfl := Option.some.inj hstep
    refine h.setTab ⟨hfacts.tables, hfacts.seen, hfacts.saved, fun hfailed => ?_,
      hfacts.reported, fun task hanswered => ?_⟩
    · cases hrestored.symm.trans hfailed
    · obtain rfl := Option.some.inj hanswered
      exact ⟨htables, hraw, fun value hvalue => by cases hvalue⟩
  · rw [hwrite] at hstep
    obtain rfl := Option.some.inj hstep
    -- The empty text is expected of an empty store only: what a tab has seen stays stored.
    have hpersisted : browser.stored = tab.persistedBytes := by
      cases hbytes : tab.persistedBytes with
      | none => rw [hfound, if_pos (by rw [hexpected, hbytes]; rfl)]
      | some bytes =>
          rw [hexpected, hbytes, Option.getD_some] at hfound
          split_ifs at hfound with hempty
          · have hseen := hfacts.seen hrestored
            rw [hbytes] at hseen
            exact absurd (h.stored ▸ hfound) (storedAfter_ne_none_of_seen h.events hseen)
          · exact hfound
    have hevent : EventFacts reader first browser.history (.wrote i browser.stored raw) := by
      refine ⟨?_, h.stored.symm, draft, htables, hraw, fun old hold => ?_⟩
      · rw [hpersisted]
        exact hfacts.seen hrestored
      · exact ⟨tab.saved, hfacts.saved hrestored old (hpersisted ▸ hold), hfollows⟩
    have hof : (Event.wrote i browser.stored raw).tab = i := rfl
    refine h.setTab_note hof hevent ⟨hfacts.tables, fun hloaded => ?_, hfacts.saved,
      fun hfailed => ?_, fun reported hreported => ?_, fun task hanswered => ?_⟩
    · rw [latest_append_singleton]
      exact hfacts.seen hloaded
    · cases hrestored.symm.trans hfailed
    · rw [latest_append_singleton] at hreported
      exact hfacts.reported reported hreported
    · obtain rfl := Option.some.inj hanswered
      refine ⟨htables, hraw, fun value hvalue => ⟨(Except.ok.inj hvalue).symm, ?_⟩⟩
      rw [latest_append_singleton, Event.writtenBy, if_pos rfl]
      rfl

/-- An answer is not reported and leaves what the tab has saved, or it is reported and the tab has
saved what the text of the save stands for. -/
theorem finish_cases {raw : String} {draft : Snapshot} {result : Except SaveFault String}
    {readable : Bool} {finished : Tab} (h : tab.finish reader raw draft result readable = finished) :
    (finished.draft.status ≠ .saved ∧ finished.draft.spec = tab.draft.spec ∧
        finished.saved = tab.saved ∧ finished.persistedBytes = tab.persistedBytes ∧
        finished.restorationFailed = tab.restorationFailed ∧ finished.task = none) ∨
      ∃ value, result = .ok value ∧ decodeSaved reader value = .ok finished.saved ∧
        finished.draft.status = .saved ∧ finished.draft.spec = finished.saved.spec ∧
        finished.persistedBytes = some raw ∧ finished.restorationFailed = tab.restorationFailed ∧
        finished.task = none := by
  subst h
  unfold Tab.finish
  dsimp only
  split
  · rename_i value
    split
    · rename_i receipt hreceipt
      split_ifs at hreceipt with hreadable
      · have hdecode : decodeSaved reader value = .ok receipt := by
          cases hrun : decodeSaved reader value with
          | ok snapshot =>
              rw [hrun] at hreceipt
              exact congrArg Except.ok (Option.some.inj hreceipt)
          | error halt =>
              rw [hrun] at hreceipt
              cases hreceipt
        split_ifs with hsame
        · exact .inr ⟨value, rfl, hdecode, rfl, rfl, rfl, rfl, rfl⟩
        · exact .inl ⟨by simp [Tab.withStatus], rfl, rfl, rfl, rfl, rfl⟩
    · exact .inl ⟨by simp [Tab.withStatus], rfl, rfl, rfl, rfl, rfl⟩
  · exact .inl ⟨by simp [Tab.withStatus], rfl, rfl, rfl, rfl, rfl⟩
  · exact .inl ⟨by simp [Tab.withStatus], rfl, rfl, rfl, rfl, rfl⟩
  · exact .inl ⟨by simp [Tab.withStatus], rfl, rfl, rfl, rfl, rfl⟩

theorem BrowserFacts.answered (h : BrowserFacts reader first browser)
    (htab : browser.tabs i = some tab) {raw : String} {draft : Snapshot}
    {result : Except SaveFault String} (htask : tab.task = some (.answered raw draft result))
    {readable : Bool} (hstep : browser.step reader (.answer i readable) = some next) :
    BrowserFacts reader first next := by
  have hfacts := h.tabs i tab htab
  obtain ⟨htables, hraw, hwrote⟩ := hfacts.task _ htask
  have hrestored : tab.restorationFailed = false := by
    cases hfailed : tab.restorationFailed with
    | false => rfl
    | true => cases htask.symm.trans (hfacts.silent hfailed).1
  simp only [Browser.step, htab, htask, Option.bind_eq_bind, Option.bind_some] at hstep
  generalize hfinish : tab.finish reader raw draft result readable = finished at hstep
  rcases finish_cases hfinish with ⟨hstatus, hspec, hsaved, hbytes, hfailed, hnone⟩ |
    ⟨value, rfl, hdecode, hstatus, hspec, hbytes, hfailed, hnone⟩
  · rw [if_neg hstatus] at hstep
    obtain rfl := Option.some.inj hstep
    refine h.setTab ⟨hspec ▸ hfacts.tables, fun hloaded => ?_, fun hloaded => ?_, fun hlost => ?_,
      fun reported hreported => ?_, fun task hwaiting => ?_⟩
    · rw [hbytes]
      exact hfacts.seen hrestored
    · rw [hbytes, hsaved]
      exact hfacts.saved hrestored
    · cases (hfailed.symm.trans hlost).symm.trans hrestored
    · rw [hbytes, hsaved]
      exact hfacts.reported reported hreported
    · cases hnone.symm.trans hwaiting
  · rw [if_pos hstatus] at hstep
    obtain rfl := Option.some.inj hstep
    obtain ⟨rfl, hlast⟩ := hwrote value rfl
    have hevent : EventFacts reader first browser.history (.reported i value) := hlast
    have hof : (Event.reported i value).tab = i := rfl
    refine h.setTab_note hof hevent ⟨?_, fun hloaded => ?_, fun hloaded old hold => ?_,
      fun hlost => ?_, fun reported hreported => ?_, fun task hwaiting => ?_⟩
    · rw [hspec]
      exact tables_of_decodeSaved hdecode
    · rw [latest_append_singleton, Event.seenBy, if_pos rfl, hbytes]
      rfl
    · obtain rfl := Option.some.inj (hbytes.symm.trans hold)
      exact hdecode
    · cases (hfailed.symm.trans hlost).symm.trans hrestored
    · rw [latest_append_singleton, Event.reportedBy, if_pos rfl] at hreported
      obtain rfl := Option.some.inj hreported
      exact ⟨hbytes, hdecode⟩
    · cases hnone.symm.trans hwaiting

/-- Every step keeps what holds of the tabs and of their history. -/
theorem BrowserFacts.step (h : BrowserFacts reader first browser) {action : Action}
    (hstep : browser.step reader action = some next) : BrowserFacts reader first next := by
  cases action with
  | «open» i readable =>
      cases htab : browser.tabs i with
      | some tab => simp [Browser.step, htab] at hstep
      | none =>
          obtain ⟨hread, hunread⟩ := h.opened htab
          simp only [Browser.step, htab] at hstep
          split_ifs at hstep
          · obtain rfl := Option.some.inj hstep
            exact hread
          · obtain rfl := Option.some.inj hstep
            exact hunread
  | edit i draft =>
      obtain ⟨tab, htab, hedit⟩ := Option.bind_eq_some_iff.1 hstep
      split_ifs at hedit with htables
      obtain rfl := Option.some.inj hedit
      have hfacts := h.tabs i tab htab
      exact h.setTab { hfacts with tables := htables, task := hfacts.task }
  | save i =>
      obtain ⟨tab, htab, hsave⟩ := Option.bind_eq_some_iff.1 hstep
      obtain rfl := Option.some.inj hsave
      exact h.setTab (h.tabs i tab htab).save
  | lock i fault =>
      obtain ⟨tab, htab, hlock⟩ := Option.bind_eq_some_iff.1 hstep
      split at hlock
      · rename_i htask
        exact h.locked htab htask hstep
      · cases hlock
  | answer i readable =>
      obtain ⟨tab, htab, hanswer⟩ := Option.bind_eq_some_iff.1 hstep
      split at hanswer
      · rename_i htask
        exact h.answered htab htask hstep
      · cases hanswer

theorem browserFacts_of_run {actions : List Action}
    (h : runActions (Browser.step reader) (Browser.start first) actions = some browser) :
    BrowserFacts reader first browser := by
  refine runActions_invariant (BrowserFacts reader first) (fun _ _ _ hfacts => hfacts.step) ?_ h
  refine ⟨rfl, eachEntry_nil, ?_, ?_⟩
  · intro i tab htab
    cases htab
  · intro i htab event hevent
    cases hevent

theorem exists_decodeSaved_of_wrote {before : List Event} {found : Option String} {raw : String}
    (h : WriteFacts reader first before i found raw) :
    ∃ snapshot, decodeSaved reader raw = .ok snapshot ∧ encodeSaved snapshot = .ok raw ∧
      ∀ old, found = some old → ∃ previous, decodeSaved reader old = .ok previous ∧
        Follows previous snapshot := by
  obtain ⟨draft, htables, hencode, hprevious⟩ := h.snapshot
  obtain ⟨loaded, hdecode, hrevision, hsame, -, -, hagain⟩ :=
    (snapshot_codec reader).1 draft raw htables hencode
  refine ⟨loaded, hdecode, hagain, fun old hold => ?_⟩
  obtain ⟨previous, hold, hfollows⟩ := hprevious old hold
  exact ⟨previous, hold, hfollows.congr hrevision hsame⟩

/-- Along a history revisions do not decrease, and bytes of one revision are the same or have the
same content. -/
theorem revision_le (before more : List Event)
    (hevents : EachEntry (EventFacts reader first) (before ++ more)) {old new : String}
    {oldSnapshot newSnapshot : Snapshot} (hold : storedAfter first before = some old)
    (hnew : storedAfter first (before ++ more) = some new)
    (holdDecode : decodeSaved reader old = .ok oldSnapshot)
    (hnewDecode : decodeSaved reader new = .ok newSnapshot) :
    oldSnapshot.revision.val ≤ newSnapshot.revision.val ∧
      (newSnapshot.revision.val = oldSnapshot.revision.val →
        new = old ∨ sameContent newSnapshot oldSnapshot = true) := by
  induction more using List.reverseRecOn generalizing new newSnapshot with
  | nil =>
      rw [List.append_nil] at hnew
      obtain rfl := Option.some.inj (hold.symm.trans hnew)
      obtain rfl := Except.ok.inj (holdDecode.symm.trans hnewDecode)
      exact ⟨le_rfl, fun _ => .inl rfl⟩
  | append_singleton more event ih =>
      rw [← List.append_assoc] at hnew hevents
      rw [storedAfter_append_singleton] at hnew
      cases event with
      | loaded j bytes => exact ih hevents.left hnew hnewDecode
      | reported j raw => exact ih hevents.left hnew hnewDecode
      | wrote j found raw =>
          obtain rfl := Option.some.inj hnew
          have hfacts : WriteFacts reader first (before ++ more) j found raw :=
            hevents _ _ [] rfl
          have hkept := storedAfter_append_ne_none (by rw [hold]; simp) more
          rw [hfacts.stored] at hkept
          obtain ⟨middle, rfl⟩ := Option.ne_none_iff_exists'.1 hkept
          obtain ⟨snapshot, hdecode, -, hprevious⟩ := exists_decodeSaved_of_wrote hfacts
          obtain rfl := Except.ok.inj (hdecode.symm.trans hnewDecode)
          obtain ⟨previous, hmiddle, hfollows⟩ := hprevious middle rfl
          obtain ⟨hle, hequal⟩ := ih hevents.left hfacts.stored hmiddle
          rw [Follows] at hfollows
          split_ifs at hfollows with hsame
          · rw [hfollows]
            refine ⟨hle, fun heq => .inr ?_⟩
            rcases hequal heq with rfl | hcontent
            · obtain rfl := Except.ok.inj (hmiddle.symm.trans holdDecode)
              exact hsame
            · exact sameContent_trans hsame hcontent
          · rw [hfollows]
            exact ⟨by omega, fun heq => by omega⟩

theorem exists_wrote_of_stored (before : List Event) {more : List Event} {j : Nat}
    {found : Option String} {raw : String} (hwrote : .wrote j found raw ∈ more) :
    ∃ pre k seen bytes post, before ++ more = pre ++ .wrote k seen bytes :: post ∧
      storedAfter first (before ++ more) = some bytes := by
  have hsome : latest Event.written (before ++ more) ≠ none := by
    rw [latest, Ne, List.findSome?_eq_none_iff]
    intro hnone
    have hwritten := hnone (.wrote j found raw) (List.mem_reverse.2 (List.mem_append_right _ hwrote))
    cases hwritten
  obtain ⟨bytes, hbytes⟩ := Option.ne_none_iff_exists'.1 hsome
  obtain ⟨pre, event, post, hlog, hevent⟩ := exists_of_latest hbytes
  cases event with
  | loaded k seen => cases hevent
  | reported k seen => cases hevent
  | wrote k seen written =>
      obtain rfl := Option.some.inj hevent
      refine ⟨pre, k, seen, written, post, hlog, ?_⟩
      rw [storedAfter, hbytes]
      rfl

/-- Stored bytes do not come back after others: while the store goes from some bytes to the same
bytes, nothing else is written. -/
theorem wrote_eq_of_stored_eq (before more : List Event)
    (hevents : EachEntry (EventFacts reader first) (before ++ more))
    (hsame : storedAfter first (before ++ more) = storedAfter first before) {j : Nat}
    {found : Option String} {raw : String} (hwrote : .wrote j found raw ∈ more) :
    storedAfter first before = some raw := by
  obtain ⟨pre, k, seen, bytes, post, hlog, hbytes⟩ := exists_wrote_of_stored before hwrote
  have hbefore : storedAfter first before = some bytes := hsame ▸ hbytes
  obtain ⟨snapshot, hdecode, hencode, -⟩ := exists_decodeSaved_of_wrote (hevents _ _ _ hlog)
  obtain ⟨left, right, rfl⟩ := List.append_of_mem hwrote
  have hevents' : EachEntry (EventFacts reader first)
      ((before ++ (left ++ [.wrote j found raw])) ++ right) := by simpa using hevents
  have hmiddle : storedAfter first (before ++ (left ++ [.wrote j found raw])) = some raw := by
    rw [← List.append_assoc, storedAfter_append_singleton]
    rfl
  have hlast : storedAfter first ((before ++ (left ++ [.wrote j found raw])) ++ right) =
      some bytes := by simpa using hbytes
  have hfacts : WriteFacts reader first (before ++ left) j found raw :=
    hevents (before ++ left) (.wrote j found raw) right (by simp)
  obtain ⟨written, hwritten, hagain, -⟩ := exists_decodeSaved_of_wrote hfacts
  obtain ⟨hup, hcontent⟩ := revision_le before _ hevents'.left hbefore hmiddle hdecode hwritten
  obtain ⟨hdown, -⟩ := revision_le _ right hevents' hmiddle hlast hwritten hdecode
  rw [hbefore]
  rcases hcontent (by omega) with rfl | hsame
  · rfl
  · have hrevision : written.revision = snapshot.revision := Bounded.ext_val (by omega)
    rw [((snapshot_codec reader).2 written snapshot raw bytes hagain hencode).2 ⟨hrevision, hsame⟩]

end Facts

def ticketDraft : Draft :=
  { Draft.ofSnapshot ⟨U64.zero, ticketDefinition, []⟩ .dirty with locale := false }

theorem exists_encodeSaved_tickets (revision : U64) (hrevision : revision.val ≤ 1) :
    ∃ raw, encodeSaved ⟨revision, ticketDefinition, []⟩ = .ok raw := by
  have hsize : (storedOf revision ticketSpec
      ⟨scopeFor ticketDefinition, []⟩).toJson.text.utf8ByteSize ≤ maxBytes := by
    rw [Json.utf8ByteSize_text]
    refine (length_storedOf_le _ _ _).trans ?_
    have hvalue : revision.val = 0 ∨ revision.val = 1 := by
      have := revision.lower
      omega
    rcases hvalue with hzero | hone
    · rw [hzero]
      decide +kernel
    · rw [hone]
      decide +kernel
  exact ⟨_, encodeSaved_eq_ok_iff.2 ⟨_, _, ⟨ticketSnapshot_content.compiled,
    ticketSnapshot_content.validated⟩, rfl, hsize⟩⟩

theorem exists_nextSnapshot_zero (baseline draft : Snapshot) (h : draft.revision = U64.zero) :
    ∃ revision : U64, revision.val ≤ 1 ∧
      Tab.nextSnapshot baseline draft = some { draft with revision } := by
  unfold Tab.nextSnapshot
  split_ifs
  · exact ⟨U64.zero, by decide, by rw [← h]⟩
  · exact ⟨U64.one, by decide, by rw [h]; rfl⟩

theorem Tab.save_eq {tab : Tab} {n : List RawRecord} {draft : Snapshot} {raw : String}
    (hopen : ¬ (tab.restorationFailed ∨ tab.draft.paused ∨ tab.draft.composing ∨ tab.saving))
    (hcandidate : candidate { tab.draft.spec with name := tab.draft.appNameInput } tab.draft.records
      tab.draft.buffers tab.draft.locale = .ok n)
    (hnext : nextSnapshot tab.saved ⟨tab.saved.revision,
      { tab.draft.spec with name := tab.draft.appNameInput }, n⟩ = some draft)
    (hencode : encodeSaved draft = .ok raw) :
    tab.save = { tab.withStatus .saving with
      saving := true
      task := some (.waiting (tab.persistedBytes.getD "") raw draft) } := by
  rw [save, if_neg hopen]
  simp only [hcandidate, hnext, hencode]

theorem candidate_tickets : candidate ticketDefinition [] .empty false = .ok [] := by decide +kernel

theorem save_tickets (tab : Tab) (hdraft : tab.draft = ticketDraft)
    (hrevision : tab.saved.revision = U64.zero) (hfailed : tab.restorationFailed = false)
    (hsaving : tab.saving = false) :
    ∃ raw snapshot, encodeSaved snapshot = .ok raw ∧ snapshot.spec.tables ≠ [] ∧
      tab.save = { tab.withStatus .saving with
        saving := true
        task := some (.waiting (tab.persistedBytes.getD "") raw snapshot) } := by
  obtain ⟨revision, hle, hnext⟩ := exists_nextSnapshot_zero tab.saved
    ⟨tab.saved.revision, ticketDefinition, []⟩ hrevision
  obtain ⟨raw, hraw⟩ := exists_encodeSaved_tickets revision hle
  refine ⟨raw, _, hraw, List.cons_ne_nil _ _, Tab.save_eq (n := []) ?_ ?_ ?_ hraw⟩
  · rw [hfailed, hsaving, hdraft]
    decide
  · rw [hdraft]
    exact candidate_tickets
  · rw [hdraft]
    exact hnext

theorem run_two_saves {reader : JsonReader} {draft : Draft} {snapshot receipt : Snapshot}
    {raw : String}
    (hsave : Tab.save { Tab.load reader (some none) with draft } =
      { Tab.withStatus { Tab.load reader (some none) with draft } .saving with
        saving := true
        task := some (.waiting "" raw snapshot) })
    (htables : draft.spec.tables ≠ []) (hdecode : decodeSaved reader raw = .ok receipt)
    (hrevision : receipt.revision = snapshot.revision) (hsame : sameContent receipt snapshot = true) :
    ∃ browser tab other,
      runActions (Browser.step reader) (Browser.start none) [.open 0 true, .open 1 true,
        .edit 0 draft, .edit 1 draft, .save 0, .save 1, .lock 0 none, .lock 1 none, .answer 0 true,
        .answer 1 true] = some browser ∧
      browser.history =
        [.loaded 0 none, .loaded 1 none, .wrote 0 none raw, .reported 0 raw] ∧
      browser.tabs 0 = some tab ∧ browser.tabs 1 = some other ∧ other.draft.status = .conflict := by
  simp [runActions, Browser.step, Browser.start, Browser.setTab, Browser.note, htables, hsave,
    writeLocalSnapshot, Tab.finish, Tab.withStatus, Except.toOption, hdecode, hrevision, hsame]

/-- However any number of tabs load, edit and save, a write replaces the bytes that its tab loaded
or reported last, and nothing else was written since these bytes were stored. Its revision is that
of the snapshot it replaces, or the next one when the content is another. What a tab reports as
saved is what it wrote last, and what it goes on with. A tab that failed to load never writes. -/
theorem saves_compare_and_swap (reader : JsonReader) (first : Option String) (actions : List Action)
    (browser : Browser)
    (h : runActions (Browser.step reader) (Browser.start first) actions = some browser) :
    browser.stored = storedAfter first browser.history ∧
    (∀ before i found raw after, browser.history = before ++ .wrote i found raw :: after →
      latest (Event.seenBy i) before = some found ∧ storedAfter first before = found ∧
      (∀ pre post, before = pre ++ post → storedAfter first pre = found →
        ∀ j seen bytes, .wrote j seen bytes ∈ post → found = some bytes) ∧
      ∃ snapshot, decodeSaved reader raw = .ok snapshot ∧ ∀ old, found = some old →
        ∃ previous, decodeSaved reader old = .ok previous ∧ Follows previous snapshot) ∧
    (∀ before i raw after, browser.history = before ++ .reported i raw :: after →
      latest (Event.writtenBy i) before = some raw) ∧
    ∀ i tab, browser.tabs i = some tab →
      (∀ raw, latest (Event.reportedBy i) browser.history = some raw →
        tab.persistedBytes = some raw ∧ decodeSaved reader raw = .ok tab.saved) ∧
      (tab.restorationFailed = true → latest (Event.writtenBy i) browser.history = none) := by
  have hfacts := browserFacts_of_run h
  refine ⟨hfacts.stored, fun before i found raw after hlog => ?_,
    fun before i raw after hlog => hfacts.events before _ after hlog, fun i tab htab =>
      ⟨(hfacts.tabs i tab htab).reported, fun hfailed => ((hfacts.tabs i tab htab).silent hfailed).2⟩⟩
  have hwrite : WriteFacts reader first before i found raw := hfacts.events before _ after hlog
  obtain ⟨snapshot, hdecode, -, hprevious⟩ := exists_decodeSaved_of_wrote hwrite
  refine ⟨hwrite.seen, hwrite.stored, ?_, snapshot, hdecode, hprevious⟩
  rintro pre post rfl hpre j seen bytes hmem
  have hevents : EachEntry (EventFacts reader first) (pre ++ post) :=
    (hlog ▸ hfacts.events : EachEntry _ ((pre ++ post) ++ _)).left
  rw [← hpre]
  exact wrote_eq_of_stored_eq pre post hevents (hwrite.stored.trans hpre.symm) hmem

/-- What one tab saves first, the other one does not replace. -/
theorem saves_compare_and_swap_tickets :
    ∃ browser tab other raw,
      runActions (Browser.step compactReader) (Browser.start none) [.open 0 true, .open 1 true,
        .edit 0 ticketDraft, .edit 1 ticketDraft, .save 0, .save 1, .lock 0 none, .lock 1 none,
        .answer 0 true, .answer 1 true] = some browser ∧
      browser.history = [.loaded 0 none, .loaded 1 none, .wrote 0 none raw, .reported 0 raw] ∧
      browser.stored = storedAfter none browser.history ∧ browser.tabs 0 = some tab ∧
      tab.persistedBytes = some raw ∧ decodeSaved compactReader raw = .ok tab.saved ∧
      browser.tabs 1 = some other ∧ other.draft.status = .conflict := by
  obtain ⟨raw, snapshot, hencode, htables, hsave⟩ := save_tickets
    { Tab.load compactReader (some none) with draft := ticketDraft } rfl rfl rfl rfl
  obtain ⟨receipt, hdecode, hrevision, hsame, -⟩ :=
    (snapshot_codec compactReader).1 snapshot raw htables hencode
  obtain ⟨browser, tab, other, hrun, hhistory, htab, hother, hconflict⟩ := run_two_saves hsave
    (List.cons_ne_nil _ _) hdecode hrevision hsame
  obtain ⟨hstored, -, -, htabs⟩ := saves_compare_and_swap compactReader none _ browser hrun
  have hreported : latest (Event.reportedBy 0) browser.history = some raw := by
    rw [hhistory]
    rfl
  obtain ⟨hbytes, hsaved⟩ := (htabs 0 tab htab).1 raw hreported
  exact ⟨browser, tab, other, raw, hrun, hhistory, hstored, htab, hbytes, hsaved, hother,
    hconflict⟩

end Evobase.Builder
