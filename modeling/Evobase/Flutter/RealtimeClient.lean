import Evobase.AppSpec.Constraint
import Evobase.Foundation.LineSplitter
import Evobase.Foundation.Utf8Decoder

/-!
# The realtime client for Flutter

The client reads an event stream line by line: a line names the type of an event or has a line of
its data, and a blank line ends the event. The bytes of the stream come in chunks of any size. At
the end of the stream the client shows what it has; when the stream fails or is closed, it keeps
the lines that it has for the stream it listens to next.
-/

namespace Evobase

open Foundation

structure RealtimeEvent where
  type : String
  data : String
deriving DecidableEq

def isDartWhitespace (c : Char) : Bool := isWhitespace c || c.toNat = 0xFEFF

def dartTrim (text : List Char) : String :=
  .ofList ((text.dropWhile isDartWhitespace).reverse.dropWhile isDartWhitespace).reverse

/-- The fields of the client that outlive a stream, and the events added to the controller. -/
structure RealtimeClient where
  currentEventType : Option String
  currentDataLines : List String
  events : List RealtimeEvent
deriving DecidableEq

def eventField : List Char := "event:".toList
def dataField : List Char := "data:".toList

namespace RealtimeClient

def new : RealtimeClient := ⟨none, [], []⟩

def flushEvent (client : RealtimeClient) : RealtimeClient :=
  if client.currentDataLines = [] then { client with currentEventType := none }
  else ⟨none, [], client.events ++ [⟨client.currentEventType.getD "message",
    "\n".intercalate client.currentDataLines⟩]⟩

def handleLine (client : RealtimeClient) (line : List Char) : RealtimeClient :=
  if eventField <+: line then { client with currentEventType := some (dartTrim (line.drop 6)) }
  else if dataField <+: line then
    { client with currentDataLines := client.currentDataLines ++ [dartTrim (line.drop 5)] }
  else if line = [] then client.flushEvent
  else client

end RealtimeClient

/-- A stream goes on, has ended, or has failed. -/
inductive StreamStatus where
  | listening
  | closed
  | failed
deriving DecidableEq

/-- How a stream ends: the server has sent everything, the connection is lost, or the application
stops listening. -/
inductive StreamEnd where
  | done
  | error
  | cancel
deriving DecidableEq

/-- A client that listens to a stream. -/
structure Subscription where
  decoder : Utf8Decoder
  splitter : LineSplitter
  client : RealtimeClient
  status : StreamStatus

namespace Subscription

/-- A stream of its own decoder and controller, for a client that may have listened before. -/
def listen (client : RealtimeClient) : Subscription :=
  ⟨.new, .new, { client with events := [] }, .listening⟩

/-- Bytes that are no text make the stream fail. -/
def receive (s : Subscription) (bytes : List UInt8) : Subscription :=
  if s.status = .listening then
    match s.decoder.convert bytes with
    | some (text, decoder) =>
        let split := s.splitter.addSlice text
        { s with
          decoder
          splitter := split.2
          client := split.1.foldl RealtimeClient.handleLine s.client }
    | none => { s with status := .failed }
  else s

theorem receive_eq {s : Subscription} {bytes : List UInt8} {text : List Char}
    {decoder : Utf8Decoder} (hlisten : s.status = .listening)
    (hconvert : s.decoder.convert bytes = some (text, decoder)) :
    s.receive bytes = ⟨decoder, (s.splitter.addSlice text).2,
      (s.splitter.addSlice text).1.foldl RealtimeClient.handleLine s.client, s.status⟩ := by
  rw [receive, if_pos hlisten, hconvert]

def receiveAll (s : Subscription) (chunks : List (List UInt8)) : Subscription :=
  chunks.foldl receive s

theorem receiveAll_concat (s : Subscription) (chunks : List (List UInt8)) (bytes : List UInt8) :
    s.receiveAll (chunks ++ [bytes]) = (s.receiveAll chunks).receive bytes :=
  List.foldl_concat receive s bytes chunks

/-- A stream that ends within a character fails. -/
def finish (s : Subscription) : StreamEnd → Subscription
  | .done =>
      if s.status = .listening then
        if s.decoder.state = .start then
          { s with
            client := (s.splitter.close.foldl RealtimeClient.handleLine s.client).flushEvent
            status := .closed }
        else { s with status := .failed }
      else s
  | .error => if s.status = .listening then { s with status := .failed } else s
  | .cancel => { s with status := .closed }

end Subscription

section Trim

variable {text : List Char}

theorem dartTrim_cons (h : isDartWhitespace c = true) : dartTrim (c :: text) = dartTrim text := by
  rw [dartTrim, List.dropWhile_cons_of_pos h, dartTrim]

theorem dartTrim_of_ends (hfirst : ∃ c ∈ text.head?, isDartWhitespace c = false)
    (hlast : ∃ c ∈ text.getLast?, isDartWhitespace c = false) : dartTrim text = .ofList text := by
  obtain ⟨c, hc, hfirst⟩ := hfirst
  obtain ⟨d, hd, hlast⟩ := hlast
  have hdrop : ∀ l : List Char, ∀ e ∈ l.head?, isDartWhitespace e = false →
      l.dropWhile isDartWhitespace = l := by
    intro l e he hblank
    cases l with
    | nil => rfl
    | cons x l =>
        obtain rfl := Option.some.inj he
        exact List.dropWhile_cons_of_neg (by simp [hblank])
  rw [dartTrim, hdrop text c hc hfirst, hdrop text.reverse d (by rwa [List.head?_reverse]) hlast,
    List.reverse_reverse]

theorem toList_dartTrim_isPrefix (h : ∀ c ∈ text.head?, isDartWhitespace c = false) :
    (dartTrim text).toList <+: text := by
  have hdrop : text.dropWhile isDartWhitespace = text := by
    cases text with
    | nil => rfl
    | cons c text => exact List.dropWhile_cons_of_neg (by simp [h c rfl])
  rw [dartTrim, hdrop, String.toList_ofList]
  obtain ⟨rest, hrest⟩ := List.dropWhile_suffix (l := text.reverse) isDartWhitespace
  exact ⟨rest.reverse, by rw [← List.reverse_append, hrest, List.reverse_reverse]⟩

end Trim

namespace RealtimeClient

variable {client : RealtimeClient} {line name data : List Char}

def Idle (client : RealtimeClient) : Prop := client.currentDataLines = []

theorem handleLine_event (name : List Char) :
    client.handleLine (eventField ++ name) =
      { client with currentEventType := some (dartTrim name) } :=
  if_pos (List.prefix_append _ _)

theorem handleLine_data (data : List Char) :
    client.handleLine (dataField ++ data) =
      { client with currentDataLines := client.currentDataLines ++ [dartTrim data] } := by
  have hnot : ¬ eventField <+: dataField ++ data := by
    simp [eventField, dataField]
  rw [handleLine, if_neg hnot, if_pos (List.prefix_append _ _)]
  rfl

theorem handleLine_nil : client.handleLine [] = client.flushEvent := by
  rw [handleLine, if_neg (by decide), if_neg (by decide), if_pos rfl]

theorem handleLine_of_not (hevent : ¬ eventField <+: line) (hdata : ¬ dataField <+: line)
    (hline : line ≠ []) : client.handleLine line = client := by
  rw [handleLine, if_neg hevent, if_neg hdata, if_neg hline]

theorem flushEvent_of_idle (h : client.Idle) :
    client.flushEvent = { client with currentEventType := none } := if_pos h

theorem flushEvent_of_not_idle (h : ¬ client.Idle) :
    client.flushEvent = ⟨none, [], client.events ++ [⟨client.currentEventType.getD "message",
      "\n".intercalate client.currentDataLines⟩]⟩ := if_neg h

theorem idle_flushEvent (client : RealtimeClient) : client.flushEvent.Idle := by
  by_cases h : client.Idle
  · rw [flushEvent_of_idle h]
    exact h
  · rw [flushEvent_of_not_idle h]
    rfl

theorem handleLine_idle (h : client.Idle) (hdata : ¬ dataField <+: line) :
    (client.handleLine line).Idle ∧ (client.handleLine line).events = client.events := by
  rw [handleLine, if_neg hdata]
  split_ifs
  · exact ⟨h, rfl⟩
  · rw [flushEvent_of_idle h]
    exact ⟨h, rfl⟩
  · exact ⟨h, rfl⟩

theorem flushEvent_singleton {type : Option String} {data : String} {events : List RealtimeEvent} :
    flushEvent ⟨type, [data], events⟩ = ⟨none, [], events ++ [⟨type.getD "message", data⟩]⟩ := by
  rw [flushEvent, if_neg (List.cons_ne_nil _ _)]
  rfl

end RealtimeClient

end Evobase
