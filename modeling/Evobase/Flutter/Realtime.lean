import Evobase.Flutter.RealtimeClient
import Evobase.Gateway.EventStream
import Mathlib.Data.List.TakeWhile

/-!
# Events over a stream

The client shows the events of a stream as they were sent, whatever the chunks are: after the
bytes that have come, those whose text has come whole. The end of the stream may show one more
event, whose data is cut.

A stream is cut into the items whose text has come whole and a rest (`Arrived`). The decoder, the
splitter and the client are each followed over the chunks as over their concatenation. The client
keeps its open lines from one stream to the next; a `Torn` stream leaves some, and
`sessions_exact_iff` says what this costs.
-/

namespace Evobase

open Foundation

def readText (s : LineSplitter × RealtimeClient) (cs : List Char) : LineSplitter × RealtimeClient :=
  ((s.1.feed cs).2, (s.1.feed cs).1.foldl RealtimeClient.handleLine s.2)

def ServerEvent.shown (message : ServerEvent) : RealtimeEvent :=
  ⟨dartTrim message.event.toList, message.payload.text⟩

section Text

variable {s : LineSplitter × RealtimeClient} {client : RealtimeClient}
  {name data line front rest cs : List Char} {item : StreamItem} {items : List StreamItem}

theorem readText_append (s : LineSplitter × RealtimeClient) (xs ys : List Char) :
    readText s (xs ++ ys) = readText (readText s xs) ys := by
  simp only [readText, LineSplitter.feed_append, List.foldl_append]

theorem readText_line (h : OneLine line) (cs : List Char) :
    readText (.new, client) (line ++ '\n' :: cs) = readText (.new, client.handleLine line) cs := by
  have hsplit : line ++ '\n' :: cs = (line ++ ['\n']) ++ cs := by
    simp
  have hline : readText (.new, client) (line ++ ['\n']) = (.new, client.handleLine line) := by
    rw [readText, LineSplitter.feed_line h]
    rfl
  rw [hsplit, readText_append, hline]

theorem readText_open (h : OneLine cs) (hne : cs ≠ []) :
    readText (.new, client) cs = (⟨some cs, false⟩, client) := by
  rw [readText, LineSplitter.feed_of_forall h hne]
  rfl

theorem readText_nil : readText s [] = s := rfl

theorem snd_readText_open (h : OneLine cs) : (readText (.new, client) cs).2 = client := by
  by_cases hcs : cs = []
  · rw [hcs, readText_nil]
  · rw [readText_open h hcs]

theorem prefix_line (h : front <+: line ++ '\n' :: rest) :
    front <+: line ∨ ∃ tail, front = line ++ '\n' :: tail ∧ tail <+: rest := by
  obtain ⟨more, hmore⟩ := h
  rcases List.append_eq_append_iff.1 hmore with ⟨gap, rfl, -⟩ | ⟨gap, rfl, hgap⟩
  · exact .inl (List.prefix_append _ _)
  · cases gap with
    | nil => exact .inl (by rw [List.append_nil])
    | cons c tail =>
        obtain ⟨rfl, hrest⟩ := List.cons.inj hgap
        exact .inr ⟨tail, rfl, more, hrest.symm⟩

theorem eq_nil_of_isPrefix {tail : List Char} (h : tail <+: ['\n']) (hne : tail ≠ ['\n']) :
    tail = [] := by
  rcases List.prefix_cons_iff.1 h with rfl | ⟨more, rfl, hmore⟩
  · rfl
  · rw [List.prefix_nil.1 hmore] at hne
    exact absurd rfl hne

theorem handleLine_event_name (name : List Char) :
    client.handleLine ("event: ".toList ++ name) =
      { client with currentEventType := some (dartTrim name) } := by
  have hblank : dartTrim (' ' :: name) = dartTrim name := dartTrim_cons (by decide)
  exact (RealtimeClient.handleLine_event (' ' :: name)).trans (by rw [hblank])

theorem handleLine_event_data (data : List Char) :
    client.handleLine ("data: ".toList ++ data) =
      { client with currentDataLines := client.currentDataLines ++ [dartTrim data] } := by
  have hblank : dartTrim (' ' :: data) = dartTrim data := dartTrim_cons (by decide)
  exact (RealtimeClient.handleLine_data (' ' :: data)).trans (by rw [hblank])

theorem oneLine_append (h : OneLine line) (hcs : OneLine cs) : OneLine (line ++ cs) := by
  intro c hc
  rcases List.mem_append.1 hc with hc | hc
  · exact h c hc
  · exact hcs c hc

theorem OneLine.of_isPrefix (h : OneLine line) (hfront : front <+: line) : OneLine front :=
  fun c hc => h c (hfront.subset hc)

theorem lines_append (a b name data cs : List Char) :
    (a ++ name ++ '\n' :: (b ++ data ++ '\n' :: ['\n'])) ++ cs =
      (a ++ name) ++ '\n' :: ((b ++ data) ++ '\n' :: ([] ++ '\n' :: cs)) := by
  simp only [List.append_assoc, List.cons_append, List.nil_append]

theorem readText_event (hname : OneLine name) (hdata : OneLine data) (cs : List Char) :
    readText (.new, client) (eventText name data ++ cs) =
      readText (.new, RealtimeClient.flushEvent ⟨some (dartTrim name),
        client.currentDataLines ++ [dartTrim data], client.events⟩) cs := by
  have hevent : OneLine "event: ".toList := by decide
  have hfield : OneLine "data: ".toList := by decide
  have htext : eventText name data ++ cs = ("event: ".toList ++ name) ++
      '\n' :: (("data: ".toList ++ data) ++ '\n' :: ([] ++ '\n' :: cs)) := lines_append _ _ _ _ _
  rw [htext, readText_line (oneLine_append hevent hname), handleLine_event_name,
    readText_line (oneLine_append hfield hdata), handleLine_event_data,
    readText_line (fun _ h => absurd h List.not_mem_nil), RealtimeClient.handleLine_nil]

theorem handleLine_comment (hline : line ≠ []) (h : line.head? = some ':') :
    client.handleLine line = client := by
  obtain ⟨c, line, rfl⟩ := List.exists_cons_of_ne_nil hline
  obtain rfl := Option.some.inj h
  exact RealtimeClient.handleLine_of_not (by simp [eventField]) (by simp [dataField]) hline

theorem readText_keepAlive (cs : List Char) :
    readText (.new, client) (StreamItem.keepAlive.text ++ cs) =
      readText (.new, client.flushEvent) cs := by
  have htext : StreamItem.keepAlive.text ++ cs = ": keep-alive".toList ++ '\n' :: ([] ++ '\n' :: cs) := by
    rfl
  rw [htext, readText_line (by decide), handleLine_comment (by decide) rfl,
    readText_line (by decide), RealtimeClient.handleLine_nil]

theorem not_isDartWhitespace (h : 32 < c.toNat ∧ c.toNat < 128) : isDartWhitespace c = false := by
  rw [isDartWhitespace, isWhitespace]
  simp only [Bool.or_eq_false_iff, Bool.and_eq_false_iff, decide_eq_false_iff_not]
  omega

theorem dartTrim_text {j : Json} (h : j.Plain) : dartTrim j.text.toList = j.text := by
  obtain ⟨c, hc, hfirst⟩ := Json.head_text h
  obtain ⟨d, hd, hlast⟩ := Json.getLast_text h
  rw [dartTrim_of_ends ⟨c, hc, not_isDartWhitespace hfirst⟩ ⟨d, hd, not_isDartWhitespace hlast⟩,
    String.ofList_toList]

theorem dartTrim_isPrefix {j : Json} (h : j.Plain) (hfront : front <+: ' ' :: j.text.toList) :
    (dartTrim front).toList <+: j.text.toList := by
  cases front with
  | nil => exact List.nil_prefix
  | cons c front =>
      obtain ⟨rfl, htail⟩ := List.cons_prefix_cons.1 hfront
      rw [dartTrim_cons (by decide)]
      refine (toList_dartTrim_isPrefix fun d hd => ?_).trans htail
      obtain ⟨c, hc, hink⟩ := Json.head_text h
      cases front with
      | nil => cases hd
      | cons e front =>
          obtain ⟨rest, hrest⟩ := htail
          rw [← hrest] at hc
          obtain rfl := Option.some.inj hd
          obtain rfl := Option.some.inj hc
          exact not_isDartWhitespace hink

/-- What the client has of an item that has begun. The end of the stream shows nothing of it, or an
event with its data cut. The client keeps a line of it exactly when the last line break alone is
missing. -/
structure Unfinished (shown : List RealtimeEvent) (item : StreamItem) (front : List Char)
    (s : LineSplitter × RealtimeClient) : Prop where
  last : ∃ extra, (s.1.close.foldl RealtimeClient.handleLine s.2).flushEvent.events =
      shown ++ extra ∧ extra.length ≤ 1 ∧ ∀ event ∈ extra, ∃ message,
        item = .event message ∧ event.type = message.shown.type ∧
          event.data.toList <+: message.shown.data.toList
  lines : ∀ message, item = .event message → s.2.currentDataLines =
    if front ++ ['\n'] = item.text then [message.payload.text] else []
  comment : item = .keepAlive → s.2.Idle

theorem unfinished_open (hidle : client.Idle) (hline : OneLine cs) (hdata : ¬ dataField <+: cs)
    (hfront : ∀ message, item = .event message → front ++ ['\n'] ≠ item.text) :
    Unfinished client.events item front (readText (.new, client) cs) := by
  have hclient : (readText (.new, client) cs).2 = client := snd_readText_open hline
  have hclose : (readText (.new, client) cs).1.close.foldl RealtimeClient.handleLine client =
      if cs = [] then client else client.handleLine cs := by
    by_cases hcs : cs = []
    · subst hcs
      rfl
    · rw [readText_open hline hcs, if_neg hcs]
      rfl
  refine ⟨⟨[], ?_, Nat.zero_le _, fun _ h => absurd h List.not_mem_nil⟩,
    fun message hitem => ?_, fun _ => by rw [hclient]; exact hidle⟩
  · rw [hclient, hclose, List.append_nil]
    split_ifs
    · rw [RealtimeClient.flushEvent_of_idle hidle]
    · obtain ⟨hafter, hevents⟩ := RealtimeClient.handleLine_idle hidle hdata
      rw [RealtimeClient.flushEvent_of_idle hafter]
      exact hevents
  · rw [hclient, if_neg (hfront message hitem)]
    exact hidle

theorem ne_of_length {xs ys : List Char} (h : xs.length < ys.length) : xs ≠ ys := by
  rintro rfl
  exact lt_irrefl _ h

/-- An event whose text has not come whole. -/
theorem unfinished_event {message : ServerEvent} (hidle : client.Idle)
    (hname : OneLine message.event.toList)
    (hfront : front <+: (StreamItem.event message).text) (hne : front ≠ (StreamItem.event message).text) :
    Unfinished client.events (.event message) front (readText (.new, client) front) := by
  have hevent : OneLine "event: ".toList := by decide
  have hfield : OneLine "data: ".toList := by decide
  have htext : (StreamItem.event message).text = ("event: ".toList ++ message.event.toList) ++
      '\n' :: (("data: ".toList ++ message.payload.text.toList) ++ '\n' :: ['\n']) := rfl
  rw [htext] at hfront hne
  rcases prefix_line hfront with hopen | ⟨tail, rfl, htail⟩
  · -- the line with the name has not ended
    refine unfinished_open hidle ((oneLine_append hevent hname).of_isPrefix hopen) (fun hdata => ?_) ?_
    · have hhead : 'd' :: "ata:".toList <+: 'e' :: ("vent: ".toList ++ message.event.toList) :=
        hdata.trans hopen
      exact absurd (List.cons_prefix_cons.1 hhead).1 (by decide)
    · intro _ _
      rw [htext]
      refine ne_of_length ?_
      have := hopen.length_le
      simp only [List.length_append, List.length_cons] at this ⊢
      omega
  · rw [readText_line (oneLine_append hevent hname), handleLine_event_name]
    have hdata : OneLine ("data: ".toList ++ message.payload.text.toList) :=
      oneLine_append hfield (oneLine_text message.plain)
    rcases prefix_line htail with hopen | ⟨rest, rfl, hrest⟩
    · have hshort : ("event: ".toList ++ message.event.toList) ++ '\n' :: tail ++ ['\n'] ≠
          (StreamItem.event message).text := by
        rw [htext]
        refine ne_of_length ?_
        have := hopen.length_le
        simp only [List.length_append, List.length_cons] at this ⊢
        omega
      by_cases hstarts : dataField <+: tail
      · -- the line with the data has begun
        obtain ⟨front, rfl⟩ := hstarts
        have hcut : front <+: ' ' :: message.payload.text.toList :=
          (List.prefix_append_right_inj dataField).1 hopen
        rw [readText_open (hdata.of_isPrefix hopen) (by simp [dataField])]
        refine ⟨⟨[⟨dartTrim message.event.toList, dartTrim front⟩], ?_, le_rfl, ?_⟩, ?_, ?_⟩
        · have hlines : client.currentDataLines = [] := hidle
          rw [LineSplitter.close, Option.toList_some, List.foldl_cons, List.foldl_nil,
            RealtimeClient.handleLine_data, hlines, List.nil_append,
            RealtimeClient.flushEvent_singleton]
          rfl
        · intro event hmem
          obtain rfl := List.mem_singleton.1 hmem
          exact ⟨message, rfl, rfl, dartTrim_isPrefix message.plain hcut⟩
        · intro other hother
          rw [if_neg hshort]
          exact hidle
        · intro hother
          cases hother
      · have hnamed : RealtimeClient.Idle ⟨some (dartTrim message.event.toList),
            client.currentDataLines, client.events⟩ := hidle
        exact unfinished_open hnamed (hdata.of_isPrefix hopen) hstarts fun _ _ => hshort
    · -- the line with the data has ended
      obtain rfl := eq_nil_of_isPrefix hrest fun h => hne (by rw [h])
      have hlines : client.currentDataLines = [] := hidle
      rw [readText_line hdata, handleLine_event_data, readText_nil, hlines, List.nil_append,
        dartTrim_text message.plain]
      refine ⟨⟨[message.shown], ?_, le_rfl, ?_⟩, ?_, ?_⟩
      · exact congrArg RealtimeClient.events RealtimeClient.flushEvent_singleton
      · intro event hmem
        obtain rfl := List.mem_singleton.1 hmem
        exact ⟨message, rfl, rfl, List.prefix_rfl⟩
      · intro other hother
        obtain rfl := StreamItem.event.inj hother
        rw [htext, if_pos (by simp only [List.append_assoc, List.cons_append, List.nil_append])]
      · intro hother
        cases hother

theorem unfinished_keepAlive (hidle : client.Idle) (hfront : front <+: StreamItem.keepAlive.text)
    (hne : front ≠ StreamItem.keepAlive.text) :
    Unfinished client.events .keepAlive front (readText (.new, client) front) := by
  have htext : StreamItem.keepAlive.text = ": keep-alive".toList ++ '\n' :: ['\n'] := rfl
  have hline : OneLine ": keep-alive".toList := by decide
  rw [htext] at hfront hne
  rcases prefix_line hfront with hopen | ⟨tail, rfl, htail⟩
  · refine unfinished_open hidle (hline.of_isPrefix hopen) (fun hdata => ?_)
      fun message hitem => by cases hitem
    have hhead : 'd' :: "ata:".toList <+: ':' :: " keep-alive".toList := hdata.trans hopen
    exact absurd (List.cons_prefix_cons.1 hhead).1 (by decide)
  · obtain rfl := eq_nil_of_isPrefix htail fun h => hne (by rw [h])
    rw [readText_line hline, handleLine_comment (by decide) rfl]
    exact unfinished_open hidle (fun _ h => absurd h List.not_mem_nil) (by decide)
      fun message hitem => by cases hitem

theorem events_readText_part (hitem : item.IsWritable) (hfront : front <+: item.text)
    (hne : front ≠ item.text) : (readText (.new, client) front).2.events = client.events := by
  cases item with
  | event message =>
      have hevent : OneLine "event: ".toList := by decide
      have hfield : OneLine "data: ".toList := by decide
      have hdata : OneLine ("data: ".toList ++ message.payload.text.toList) :=
        oneLine_append hfield (oneLine_text message.plain)
      rcases prefix_line hfront with hopen | ⟨tail, rfl, htail⟩
      · rw [snd_readText_open ((oneLine_append hevent hitem).of_isPrefix hopen)]
      · rw [readText_line (oneLine_append hevent hitem), handleLine_event_name]
        rcases prefix_line htail with hopen | ⟨rest, rfl, hrest⟩
        · rw [snd_readText_open (hdata.of_isPrefix hopen)]
        · rw [eq_nil_of_isPrefix hrest fun h => hne (by rw [h]; rfl), readText_line hdata, handleLine_event_data,
            readText_nil]
  | keepAlive =>
      have hline : OneLine ": keep-alive".toList := by decide
      have htext : StreamItem.keepAlive.text = ": keep-alive".toList ++ '\n' :: ['\n'] := rfl
      rw [htext] at hfront hne
      rcases prefix_line hfront with hopen | ⟨tail, rfl, htail⟩
      · rw [snd_readText_open (hline.of_isPrefix hopen)]
      · rw [eq_nil_of_isPrefix htail fun h => hne (by rw [h]), readText_line hline,
          handleLine_comment (by decide) rfl, readText_nil]

theorem unfinished_item (hidle : client.Idle) (hitem : item.IsWritable) (hfront : front <+: item.text)
    (hne : front ≠ item.text) :
    Unfinished client.events item front (readText (.new, client) front) := by
  cases item with
  | event message => exact unfinished_event hidle hitem hfront hne
  | keepAlive => exact unfinished_keepAlive hidle hfront hne

/-- Items that have come whole are shown. -/
theorem readText_items (hidle : client.Idle) (hitems : ∀ item ∈ items, item.IsWritable)
    (cs : List Char) : ∃ next : RealtimeClient, next.Idle ∧
      next.events = client.events ++ (items.filterMap StreamItem.message?).map ServerEvent.shown ∧
      readText (.new, client) (items.flatMap StreamItem.text ++ cs) = readText (.new, next) cs := by
  induction items generalizing client with
  | nil => exact ⟨client, hidle, (List.append_nil _).symm, rfl⟩
  | cons item items ih =>
      obtain ⟨hitem, hrest⟩ := List.forall_mem_cons.1 hitems
      rw [List.flatMap_cons, List.append_assoc]
      cases item with
      | event message =>
          have hlines : client.currentDataLines = [] := hidle
          have hshown : RealtimeClient.Idle ⟨none, [], client.events ++ [message.shown]⟩ := rfl
          obtain ⟨next, hnext, hevents, hread⟩ := ih hshown hrest
          refine ⟨next, hnext, ?_, ?_⟩
          · rw [hevents, List.append_assoc]
            rfl
          · rw [← hread, StreamItem.text, readText_event hitem (oneLine_text message.plain), hlines,
              List.nil_append, RealtimeClient.flushEvent_singleton, dartTrim_text message.plain]
            rfl
      | keepAlive =>
          have hflushed : RealtimeClient.Idle { client with currentEventType := none } := hidle
          obtain ⟨next, hnext, hevents, hread⟩ := ih hflushed hrest
          exact ⟨next, hnext, hevents, by
            rw [← hread, readText_keepAlive, RealtimeClient.flushEvent_of_idle hidle]⟩

/-- The beginning of the texts of some items is the texts of the first of them and the beginning of
the text of the next one. -/
theorem exists_items_of_isPrefix (h : front <+: items.flatMap StreamItem.text) :
    ∃ whole rest part, items = whole ++ rest ∧ front = whole.flatMap StreamItem.text ++ part ∧
      ((rest = [] ∧ part = []) ∨
        ∃ item more, rest = item :: more ∧ part <+: item.text ∧ part ≠ item.text) := by
  induction items generalizing front with
  | nil => exact ⟨[], [], [], rfl, List.prefix_nil.1 h, .inl ⟨rfl, rfl⟩⟩
  | cons item items ih =>
      rw [List.flatMap_cons] at h
      by_cases hwhole : item.text <+: front
      · obtain ⟨tail, rfl⟩ := hwhole
        obtain ⟨whole, rest, part, hitems, htail, hpart⟩ :=
          ih ((List.prefix_append_right_inj item.text).1 h)
        exact ⟨item :: whole, rest, part, by rw [hitems]; rfl,
          by rw [htail, List.flatMap_cons, List.append_assoc], hpart⟩
      · rcases List.prefix_or_prefix_of_prefix h (List.prefix_append _ _) with hshort | hlong
        · refine ⟨[], item :: items, front, rfl, rfl, .inr ⟨item, items, rfl, hshort, ?_⟩⟩
          rintro rfl
          exact hwhole List.prefix_rfl
        · exact absurd hlong hwhole

end Text

section Bytes

variable {client : RealtimeClient} {chunks : List (List UInt8)} {front : List Char}
  {state : Utf8State} {items : List StreamItem}

/-- The subscription after the bytes of some characters. -/
def Subscription.after (client : RealtimeClient) (front : List Char) (state : Utf8State) :
    Subscription :=
  ⟨.after front state, (readText (.new, { client with events := [] }) front).1,
    (readText (.new, { client with events := [] }) front).2, .listening⟩

theorem receiveAll_eq (hdecode : Utf8State.start.decode chunks.flatten = some (front, state))
    (hmark : ∀ c ∈ front.head?, c.toNat ≠ 0xFEFF) :
    (Subscription.listen client).receiveAll chunks = .after client front state := by
  induction chunks using List.reverseRecOn generalizing front state with
  | nil =>
      obtain ⟨rfl, rfl⟩ := Prod.mk.inj (Option.some.inj hdecode)
      rfl
  | append_singleton chunks chunk ih =>
      rw [List.flatten_append, List.flatten_singleton, Utf8State.decode_append] at hdecode
      obtain ⟨⟨seen, middle⟩, hseen, hrest⟩ := Option.bind_eq_some_iff.1 hdecode
      obtain ⟨⟨cs, last⟩, hcs, heq⟩ := Option.map_eq_some_iff.1 hrest
      obtain ⟨rfl, rfl⟩ := Prod.mk.inj heq
      have hseenmark : ∀ c ∈ seen.head?, c.toNat ≠ 0xFEFF := by
        intro c hc
        refine hmark c ?_
        cases seen with
        | nil => cases hc
        | cons d seen => exact hc
      have hconvert : (Subscription.after client seen middle).decoder.convert chunk =
          some (cs, .after (seen ++ cs) last) := Utf8Decoder.convert_after hcs hmark
      rw [Subscription.receiveAll_concat, ih hseen hseenmark, Subscription.receive_eq rfl hconvert,
        LineSplitter.addSlice_eq_feed]
      simp only [Subscription.after, readText_append]
      rfl

theorem head_items (h : front <+: items.flatMap StreamItem.text) :
    ∀ c ∈ front.head?, c.toNat ≠ 0xFEFF := by
  intro c hc
  obtain ⟨rest, hrest⟩ := h
  cases front with
  | nil => cases hc
  | cons d front =>
      obtain rfl := Option.some.inj hc
      cases items with
      | nil => cases hrest
      | cons item items =>
          cases item with
          | event message =>
              obtain ⟨rfl, -⟩ := List.cons.inj hrest
              decide
          | keepAlive =>
              obtain ⟨rfl, -⟩ := List.cons.inj hrest
              decide

theorem streamBody_of_writable {format : EventFormat} (hformat : format.Documented)
    (h : ∀ item ∈ items, item.IsWritable) :
    streamBody format items = Json.utf8 (items.flatMap StreamItem.text) := by
  rw [streamBody_eq hformat, sentItems, List.takeWhile_eq_self_iff.2 (by simpa using h)]

end Bytes

/-- The items of a stream that have come whole, and those that have not. -/
structure Arrived (format : EventFormat) (items : List StreamItem) (bytes : List UInt8)
    (whole rest : List StreamItem) : Prop where
  sent : sentItems items = whole ++ rest
  come : streamBody format whole <+: bytes
  next : ∀ item more, rest = item :: more → ¬ streamBody format (whole ++ [item]) <+: bytes

/-- A stream of items, the chunks that come of it, and its end. -/
structure Session where
  items : List StreamItem
  chunks : List (List UInt8)
  ending : StreamEnd

namespace Session

def bytes (session : Session) : List UInt8 := session.chunks.flatten

def Receives (format : EventFormat) (session : Session) : Prop :=
  session.bytes <+: streamBody format session.items

/-- The stream is lost or left when the last line break alone is missing of an event. -/
def Torn (format : EventFormat) (session : Session) : Prop :=
  session.ending ≠ .done ∧ ∃ whole message rest,
    Arrived format session.items session.bytes whole (.event message :: rest) ∧
      session.bytes ++ [10] = streamBody format (whole ++ [.event message])

def listen (client : RealtimeClient) (session : Session) : Subscription :=
  (Subscription.listen client).receiveAll session.chunks

def run (client : RealtimeClient) (session : Session) : RealtimeClient :=
  ((session.listen client).finish session.ending).client

end Session

/-- What is known of a client that has read some bytes. -/
structure Reading (format : EventFormat) (session : Session) (front part : List Char)
    (state : Utf8State) (whole rest : List StreamItem) : Prop where
  arrived : Arrived format session.items session.bytes whole rest
  writable : ∀ item ∈ whole ++ rest, item.IsWritable
  split : front = whole.flatMap StreamItem.text ++ part
  listens : ∀ client, session.listen client = .after client front state
  parts : (rest = [] ∧ part = []) ∨
    ∃ item more, rest = item :: more ∧ part <+: item.text ∧ part ≠ item.text
  torn : ∀ message more, rest = .event message :: more →
    (session.bytes ++ [10] = streamBody format (whole ++ [.event message]) ↔
      part ++ ['\n'] = (StreamItem.event message).text)
  ends : ∀ message more, rest = .event message :: more →
    part ++ ['\n'] = (StreamItem.event message).text → state = .start

section Sessions

variable {format : EventFormat} {session : Session} {client : RealtimeClient} {whole rest : List StreamItem}

theorem exists_reading (hformat : format.Documented) (h : session.Receives format) :
    ∃ front part state whole rest, Reading format session front part state whole rest := by
  rw [Session.Receives, streamBody_eq hformat] at h
  obtain ⟨front, state, hdecode, hfront, hparts⟩ := Utf8State.decode_of_isPrefix h
  obtain ⟨whole, rest, part, hitems, hsplit, hpart⟩ := exists_items_of_isPrefix hfront
  have hwritable : ∀ item ∈ whole ++ rest, item.IsWritable := fun item hmem =>
    isWritable_of_mem (hitems ▸ hmem)
  have hbody : ∀ some more, whole ++ rest = some ++ more →
      streamBody format some = Json.utf8 (some.flatMap StreamItem.text) ∧
        (streamBody format some <+: session.bytes ↔ some.flatMap StreamItem.text <+: front) := by
    intro some more heq
    have hsome : streamBody format some = Json.utf8 (some.flatMap StreamItem.text) :=
      streamBody_of_writable hformat fun item hmem =>
        hwritable item (heq ▸ List.mem_append_left more hmem)
    refine ⟨hsome, hsome ▸ hparts _ ⟨more.flatMap StreamItem.text, ?_⟩⟩
    rw [hitems, heq, List.flatMap_append]
  have htorn : ∀ message more, rest = .event message :: more →
      (session.bytes ++ [10] = streamBody format (whole ++ [.event message]) ↔
        part ++ ['\n'] = (StreamItem.event message).text) ∧
      (part ++ ['\n'] = (StreamItem.event message).text → state = .start) := by
    rintro message more rfl
    obtain ⟨text, htext⟩ : ∃ text, (StreamItem.event message).text = text ++ ['\n'] :=
      exists_eventText_eq _ _
    have hbreak : Json.utf8 ['\n'] = [10] := rfl
    have hin : (whole.flatMap StreamItem.text ++ text) ++ ['\n'] <+:
        (sentItems session.items).flatMap StreamItem.text := by
      refine ⟨more.flatMap StreamItem.text, ?_⟩
      rw [hitems, List.flatMap_append, List.flatMap_cons, htext]
      simp only [List.append_assoc]
    have hiff : session.bytes ++ [10] = Json.utf8 ((whole.flatMap StreamItem.text ++ text) ++ ['\n']) ↔
        part ++ ['\n'] = text ++ ['\n'] := by
      rw [Utf8State.concat_eq_iff h hdecode hbreak hin, hsplit, List.append_cancel_left_eq,
        List.append_cancel_right_eq, eq_comm]
    rw [(hbody (whole ++ [StreamItem.event message]) more (by simp)).1, List.flatMap_append,
      List.flatMap_singleton, htext, ← List.append_assoc]
    exact ⟨hiff, fun hpart => Utf8State.state_eq_start hdecode hbreak (hiff.2 hpart)⟩
  refine ⟨front, part, state, whole, rest, ⟨hitems, ?_, ?_⟩, hwritable, hsplit, fun client => ?_,
    hpart, fun message more hrest => (htorn message more hrest).1,
    fun message more hrest => (htorn message more hrest).2⟩
  · exact (hbody whole rest rfl).2.2 ⟨part, hsplit.symm⟩
  · rintro item more rfl hcome
    have hin := (hbody (whole ++ [item]) more (by simp)).2.1 hcome
    rw [hsplit, List.flatMap_append, List.flatMap_singleton, List.prefix_append_right_inj] at hin
    obtain ⟨hnil, -⟩ | ⟨other, others, heq, hle, hne⟩ := hpart
    · cases hnil
    · obtain ⟨rfl, rfl⟩ := List.cons.inj heq
      exact hne (hle.eq_of_length_le hin.length_le)
  · exact receiveAll_eq hdecode (head_items hfront)
def shownOf (items : List StreamItem) : List RealtimeEvent :=
  (items.filterMap StreamItem.message?).map ServerEvent.shown

theorem Arrived.unique {bytes : List UInt8} {items whole' rest' : List StreamItem}
    (h : Arrived format items bytes whole rest) (h' : Arrived format items bytes whole' rest') :
    whole = whole' ∧ rest = rest' := by
  have hle : ∀ {a b c d : List StreamItem}, Arrived format items bytes a b →
      Arrived format items bytes c d → ∀ {gap}, c = a ++ gap → b = gap ++ d → gap = [] := by
    intro a b c d hab hcd gap hc hb
    cases gap with
    | nil => rfl
    | cons item gap =>
        exfalso
        have hsplit : c = (a ++ [item]) ++ gap := by
          rw [hc]
          simp
        rw [hsplit] at hcd
        exact hab.next item (gap ++ d) hb ((streamBody_isPrefix format _ gap).trans hcd.come)
  rcases List.append_eq_append_iff.1 (h.sent.symm.trans h'.sent) with ⟨gap, hwhole, hrest⟩ | ⟨gap, hwhole, hrest⟩
  · have := hle h h' hwhole hrest
    subst this
    exact ⟨by simpa using hwhole.symm, by simpa using hrest⟩
  · have := hle h' h hwhole hrest
    subst this
    exact ⟨by simpa using hwhole, by simpa using hrest.symm⟩

section Read

variable {front part : List Char} {state : Utf8State}
  (reading : Reading format session front part state whole rest)

include reading

theorem Reading.torn_iff : session.Torn format ↔ session.ending ≠ .done ∧ ∃ message more,
    rest = .event message :: more ∧ part ++ ['\n'] = (StreamItem.event message).text := by
  refine and_congr_right fun _ => ⟨?_, ?_⟩
  · rintro ⟨whole', message, more, harrived, hbytes⟩
    obtain ⟨rfl, rfl⟩ := harrived.unique reading.arrived
    exact ⟨message, more, rfl, (reading.torn message more rfl).1 hbytes⟩
  · rintro ⟨message, more, rfl, hpart⟩
    exact ⟨whole, message, more, reading.arrived, (reading.torn message more rfl).2 hpart⟩

theorem Reading.exists_next (hidle : client.Idle) : ∃ next : RealtimeClient, next.Idle ∧
    next.events = shownOf whole ∧ session.listen client =
      ⟨.after front state, (readText (.new, next) part).1, (readText (.new, next) part).2, .listening⟩ := by
  have hlisten : RealtimeClient.Idle { client with events := [] } := hidle
  obtain ⟨next, hnext, hevents, hread⟩ := readText_items hlisten
    (fun item hmem => reading.writable item (List.mem_append_left rest hmem)) part
  refine ⟨next, hnext, hevents, ?_⟩
  rw [reading.listens, Subscription.after, reading.split, hread]

theorem Reading.events_part (client : RealtimeClient) :
    (readText (.new, client) part).2.events = client.events := by
  obtain ⟨-, rfl⟩ | ⟨item, more, hrest, hle, hne⟩ := reading.parts
  · rfl
  · exact events_readText_part (reading.writable item (by rw [hrest]; simp)) hle hne

/-- What the end of the stream shows, and what the client keeps. -/
theorem Reading.unfinished {next : RealtimeClient} (hidle : next.Idle) :
    (∃ extra, ((readText (.new, next) part).1.close.foldl RealtimeClient.handleLine
        (readText (.new, next) part).2).flushEvent.events = next.events ++ extra ∧ extra.length ≤ 1 ∧
      ∀ event ∈ extra, ∃ message more, rest = .event message :: more ∧
        event.type = message.shown.type ∧ event.data.toList <+: message.shown.data.toList) ∧
    ((readText (.new, next) part).2.Idle ↔ ¬ ∃ message more, rest = .event message :: more ∧
      part ++ ['\n'] = (StreamItem.event message).text) := by
  obtain ⟨rfl, rfl⟩ | ⟨item, more, rfl, hle, hne⟩ := reading.parts
  · refine ⟨⟨[], ?_, Nat.zero_le _, fun _ h => absurd h List.not_mem_nil⟩, iff_of_true hidle ?_⟩
    · rw [readText_nil, List.append_nil]
      change next.flushEvent.events = next.events
      rw [RealtimeClient.flushEvent_of_idle hidle]
    · rintro ⟨message, more, hnil, -⟩
      cases hnil
  · have h := unfinished_item hidle (reading.writable item (by simp)) hle hne
    obtain ⟨extra, hextra, hlength, hevents⟩ := h.last
    refine ⟨⟨extra, hextra, hlength, fun event hmem => ?_⟩, ?_⟩
    · obtain ⟨message, rfl, htype, hdata⟩ := hevents event hmem
      exact ⟨message, more, rfl, htype, hdata⟩
    · cases item with
      | event message =>
          rw [RealtimeClient.Idle, h.lines message rfl]
          constructor
          · rintro hlines ⟨other, others, heq, htext⟩
            obtain ⟨hother, -⟩ := List.cons.inj heq
            rw [← hother] at htext
            rw [if_pos htext] at hlines
            cases hlines
          · intro hnot
            exact if_neg fun htext => hnot ⟨message, more, rfl, htext⟩
      | keepAlive =>
          refine iff_of_true (h.comment rfl) ?_
          rintro ⟨message, others, heq, -⟩
          cases (List.cons.inj heq).1

theorem Reading.idle_run (hidle : client.Idle) :
    (session.run client).Idle ↔ ¬ session.Torn format := by
  obtain ⟨next, hnext, -, hlisten⟩ := reading.exists_next hidle
  have hpart := (reading.unfinished hnext).2
  rw [Session.run, hlisten, reading.torn_iff]
  cases hending : session.ending with
  | done =>
      refine iff_of_true ?_ fun h => h.1 rfl
      by_cases hstart : state = .start
      · subst hstart
        exact RealtimeClient.idle_flushEvent _
      · rw [Subscription.finish, if_pos rfl]
        rw [if_neg (show (Utf8Decoder.after front state).state ≠ .start from hstart)]
        refine hpart.2 ?_
        rintro ⟨message, more, hrest, htext⟩
        exact hstart (reading.ends message more hrest htext)
  | error =>
      rw [Subscription.finish, if_pos rfl]
      exact hpart.trans (not_congr (and_iff_right (by decide)).symm)
  | cancel => exact hpart.trans (not_congr (and_iff_right (by decide)).symm)

theorem Reading.events_idle (hidle : client.Idle) :
    (session.listen client).client.events = shownOf whole := by
  obtain ⟨next, -, hevents, hlisten⟩ := reading.exists_next hidle
  rw [hlisten, reading.events_part, hevents]

theorem Reading.events_run (hidle : client.Idle) :
    ∃ extra, (session.run client).events = shownOf whole ++ extra ∧ extra.length ≤ 1 ∧
      ∀ event ∈ extra, session.ending = .done ∧ ∃ message more, rest = .event message :: more ∧
        event.type = message.shown.type ∧ event.data.toList <+: message.shown.data.toList := by
  obtain ⟨next, hnext, hevents, hlisten⟩ := reading.exists_next hidle
  have hsame : (readText (.new, next) part).2.events = shownOf whole ++ [] := by
    rw [reading.events_part, hevents, List.append_nil]
  rw [Session.run, hlisten]
  cases hending : session.ending with
  | done =>
      by_cases hstart : state = .start
      · obtain ⟨extra, hextra, hlength, hall⟩ := (reading.unfinished hnext).1
        subst hstart
        exact ⟨extra, hevents ▸ hextra, hlength, fun event hmem => ⟨rfl, hall event hmem⟩⟩
      · refine ⟨[], ?_, Nat.zero_le _, fun _ h => absurd h List.not_mem_nil⟩
        rw [Subscription.finish, if_pos rfl,
          if_neg (show (Utf8Decoder.after front state).state ≠ .start from hstart)]
        exact hsame
  | error =>
      refine ⟨[], ?_, Nat.zero_le _, fun _ h => absurd h List.not_mem_nil⟩
      rw [Subscription.finish, if_pos rfl]
      exact hsame
  | cancel => exact ⟨[], hsame, Nat.zero_le _, fun _ h => absurd h List.not_mem_nil⟩

/-- A client that has a line of an event shows another event first. -/
theorem Reading.events_not_idle (hbusy : ¬ client.Idle) :
    (session.listen client).client.events = shownOf whole ↔ whole = [] := by
  have hlisten : ¬ RealtimeClient.Idle { client with events := [] } := hbusy
  rw [reading.listens, Subscription.after, reading.split]
  cases whole with
  | nil => exact iff_of_true (reading.events_part _) rfl
  | cons item more =>
      have hwritable := List.forall_mem_cons.1
        fun item' hmem => reading.writable item' (List.mem_append_left rest hmem)
      refine iff_of_false ?_ (List.cons_ne_nil item more)
      rw [List.flatMap_cons, List.append_assoc]
      cases item with
      | event message =>
          obtain ⟨next, -, hevents, hread⟩ := readText_items (RealtimeClient.idle_flushEvent
            ⟨some (dartTrim message.event.toList),
              client.currentDataLines ++ [dartTrim message.payload.text.toList], []⟩) hwritable.2 part
          have hlines : client.currentDataLines ++ [dartTrim message.payload.text.toList] ≠ [] := by
            simp
          rw [StreamItem.text, readText_event hwritable.1 (oneLine_text message.plain), hread,
            reading.events_part, hevents, RealtimeClient.flushEvent, if_neg hlines,
            dartTrim_text message.plain]
          intro heq
          -- the data of the first event has a line more
          have hdata := congrArg RealtimeEvent.data (List.cons.inj heq).1
          change "\n".intercalate (client.currentDataLines ++ [message.payload.text]) = _ at hdata
          rw [String.intercalate_append_of_ne_nil hbusy (List.cons_ne_nil _ _),
            String.intercalate_singleton] at hdata
          have hlength := congrArg String.length hdata
          have hone : "\n".length = 1 := rfl
          simp only [String.length_append, hone, ServerEvent.shown] at hlength
          omega
      | keepAlive =>
          obtain ⟨next, -, hevents, hread⟩ := readText_items
            (RealtimeClient.idle_flushEvent { client with events := [] }) hwritable.2 part
          rw [readText_keepAlive, hread, reading.events_part, hevents,
            RealtimeClient.flushEvent_of_not_idle hlisten]
          intro heq
          have hlength := congrArg List.length heq
          have hsame : shownOf (.keepAlive :: more) = shownOf more := rfl
          rw [hsame, shownOf, List.length_append, List.length_append, List.length_singleton] at hlength
          omega

end Read

/-- The end of a stream shows one event more at most: the next one of the stream, with its data
cut. -/
def ShowsCut (session : Session) (client : RealtimeClient) (whole rest : List StreamItem) : Prop :=
  ∃ extra, (session.run client).events = shownOf whole ++ extra ∧ extra.length ≤ 1 ∧
    ∀ event ∈ extra, session.ending = .done ∧ ∃ message more, rest = .event message :: more ∧
      event.type = message.shown.type ∧ event.data.toList <+: message.shown.data.toList

theorem idle_runs (hformat : format.Documented) {sessions : List Session} (hidle : client.Idle)
    (h : ∀ session ∈ sessions, session.Receives format ∧ ¬ session.Torn format) :
    (sessions.foldl Session.run client).Idle := by
  induction sessions generalizing client with
  | nil => exact hidle
  | cons session sessions ih =>
      obtain ⟨⟨hreceives, htorn⟩, hrest⟩ := List.forall_mem_cons.1 h
      obtain ⟨front, part, state, whole, rest, reading⟩ := exists_reading hformat hreceives
      exact ih ((reading.idle_run hidle).2 htorn) hrest

/-- However a client listens to one stream after the other, and however the bytes of a stream are
cut into chunks and cut short: when none of the earlier streams was torn, it shows the events whose
text has come whole, in order and once each, exactly when the last stream was not torn either or no
text has come whole. -/
theorem sessions_exact_iff (hformat : format.Documented) (before : List Session)
    (hreceives : ∀ s ∈ before ++ [session], s.Receives format)
    (hearlier : ∀ s ∈ before.dropLast, ¬ s.Torn format) :
    ∃ whole rest, Arrived format session.items session.bytes whole rest ∧
      ((session.listen (before.foldl Session.run .new)).client.events = shownOf whole ↔
        (∀ s ∈ before.getLast?, ¬ s.Torn format) ∨ whole = []) ∧
      ((∀ s ∈ before.getLast?, ¬ s.Torn format) →
        ShowsCut session (before.foldl Session.run .new) whole rest) := by
  obtain ⟨front, part, state, whole, rest, reading⟩ :=
    exists_reading hformat (hreceives session (by simp))
  have hidle : (before.foldl Session.run .new).Idle ↔ ∀ s ∈ before.getLast?, ¬ s.Torn format := by
    rcases List.eq_nil_or_concat before with rfl | ⟨earlier, last, rfl⟩
    · exact iff_of_true rfl fun _ h => absurd h (Option.not_mem_none _)
    · rw [List.concat_eq_append] at hreceives hearlier ⊢
      obtain ⟨front, part, state, whole, rest, hlast⟩ :=
        exists_reading hformat (hreceives last (by simp))
      rw [List.dropLast_concat] at hearlier
      have hbefore : (earlier.foldl Session.run RealtimeClient.new).Idle :=
        idle_runs hformat rfl fun s hs => ⟨hreceives s (by simp [hs]), hearlier s hs⟩
      rw [List.foldl_concat, hlast.idle_run hbefore, List.getLast?_concat]
      exact ⟨fun h s hs => Option.some.inj hs ▸ h, fun h => h last rfl⟩
  refine ⟨whole, rest, reading.arrived, ?_, fun h => reading.events_run (hidle.2 h)⟩
  rw [← hidle]
  by_cases hnow : (before.foldl Session.run .new).Idle
  · exact iff_of_true (reading.events_idle hnow) (.inl hnow)
  · rw [reading.events_not_idle hnow]
    exact (or_iff_right hnow).symm

end Sessions

def plainFormat : EventFormat where
  event name data :=
    if OneLine name.toList then some (Json.utf8 (eventText name.toList data.toList)) else none
  comment text := some (Json.utf8 (commentText text.toList))

theorem documented_plainFormat : plainFormat.Documented where
  event_eq _ _ hname _ _ := if_pos hname
  event_eq_none _ _ hname := if_neg hname
  comment_eq _ _ := rfl

def noteOf (text : String) : ServerEvent := ⟨"note", .str text, trivial⟩

def tornSession : Session where
  items := [.event (noteOf "a")]
  chunks := [(streamBody plainFormat [.event (noteOf "a")]).dropLast]
  ending := .error

def nextSession : Session where
  items := [.event (noteOf "b")]
  chunks := [streamBody plainFormat [.event (noteOf "b")]]
  ending := .done

/-- The data of the second note starts with that of the first. -/
theorem sessions_exact_iff_torn : ∃ whole rest,
    Arrived plainFormat nextSession.items nextSession.bytes whole rest ∧
      (nextSession.listen (tornSession.run .new)).client.events = [⟨"note", "\"a\"\n\"b\""⟩] ∧
      ((nextSession.listen (tornSession.run .new)).client.events = shownOf whole ↔
        (∀ s ∈ [tornSession].getLast?, ¬ s.Torn plainFormat) ∨ whole = []) := by
  have hreceives : ∀ s ∈ [tornSession] ++ [nextSession], s.Receives plainFormat := by
    intro s hs
    rcases List.mem_cons.1 hs with rfl | hs
    · rw [Session.Receives, Session.bytes, tornSession, List.flatten_singleton]
      exact List.dropLast_prefix _
    · obtain rfl := List.mem_singleton.1 hs
      rw [Session.Receives, Session.bytes, nextSession, List.flatten_singleton]
  obtain ⟨whole, rest, harrived, hexact, -⟩ := sessions_exact_iff documented_plainFormat
    [tornSession] hreceives fun _ h => absurd h List.not_mem_nil
  exact ⟨whole, rest, harrived, by decide +kernel, hexact⟩

end Evobase
