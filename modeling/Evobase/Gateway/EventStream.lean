import Evobase.Foundation.JsonFields
import Evobase.Foundation.JsonLine
import Evobase.Messaging.Hub

/-!
# Event streams

A connection is answered with a stream of events: a field with the name of an event, a field with
its payload as compact text, and a blank line. A comment is sent when nothing else is. The writer
of fields is a parameter: it has no text for a name with a line break, and the stream ends there
as the task that writes it does.
-/

namespace Evobase

open Foundation

/-- An event with its payload; numbers of the payload that are kept as literals are numbers. -/
structure ServerEvent where
  event : String
  payload : Json
  plain : payload.Plain

def OneLine (text : List Char) : Prop := ∀ c ∈ text, c ≠ '\r' ∧ c ≠ '\n'

instance (text : List Char) : Decidable (OneLine text) :=
  List.decidableBAll _ text

/-- The writer of events and comments. -/
structure EventFormat where
  event : String → String → Option (List UInt8)
  comment : String → Option (List UInt8)

def eventText (name data : List Char) : List Char :=
  "event: ".toList ++ name ++ '\n' :: ("data: ".toList ++ data ++ '\n' :: ['\n'])

def commentText (text : List Char) : List Char := ": ".toList ++ text ++ '\n' :: ['\n']

/-- What the writer is documented to do. -/
structure EventFormat.Documented (format : EventFormat) : Prop where
  event_eq : ∀ name data, OneLine name.toList → OneLine data.toList → data ≠ "" →
    format.event name data = some (Json.utf8 (eventText name.toList data.toList))
  event_eq_none : ∀ name data, ¬ OneLine name.toList → format.event name data = none
  comment_eq : ∀ text, OneLine text.toList →
    format.comment text = some (Json.utf8 (commentText text.toList))

/-- What a stream sends. -/
inductive StreamItem where
  | event (message : ServerEvent)
  | keepAlive

def sseEvent (format : EventFormat) (message : ServerEvent) : Option (List UInt8) :=
  format.event message.event message.payload.text

namespace StreamItem

def write (format : EventFormat) : StreamItem → Option (List UInt8)
  | .event message => sseEvent format message
  | .keepAlive => format.comment "keep-alive"

def message? : StreamItem → Option ServerEvent
  | .event message => some message
  | .keepAlive => none

def text : StreamItem → List Char
  | .event message => eventText message.event.toList message.payload.text.toList
  | .keepAlive => commentText "keep-alive".toList

def IsWritable : StreamItem → Prop
  | .event message => OneLine message.event.toList
  | .keepAlive => True

instance : (item : StreamItem) → Decidable item.IsWritable
  | .event message => inferInstanceAs (Decidable (OneLine message.event.toList))
  | .keepAlive => inferInstanceAs (Decidable True)

end StreamItem

/-- The bytes of a stream, up to the first item that has none. -/
def streamBody (format : EventFormat) : List StreamItem → List UInt8
  | [] => []
  | item :: items =>
      match item.write format with
      | some bytes => bytes ++ streamBody format items
      | none => []

def sentItems (items : List StreamItem) : List StreamItem :=
  items.takeWhile fun item => item.IsWritable

section Text

variable {format : EventFormat} {item : StreamItem} {items : List StreamItem}

theorem exists_eventText_eq (name data : List Char) :
    ∃ front, eventText name data = front ++ ['\n'] := by
  have hconcat : ∀ a b : List Char, (a ++ name ++ '\n' :: (b ++ data ++ '\n' :: ['\n'])) =
      (a ++ name ++ '\n' :: (b ++ data ++ ['\n'])) ++ ['\n'] := by
    intro a b
    simp only [List.append_assoc, List.cons_append, List.nil_append]
  exact ⟨_, hconcat _ _⟩

theorem oneLine_text {j : Json} (h : j.Plain) : OneLine j.text.toList := by
  intro c hc
  have hgraphic := Json.graphic_text h c hc
  constructor
  · rintro rfl
    exact absurd hgraphic (by decide)
  · rintro rfl
    exact absurd hgraphic (by decide)

theorem text_ne_empty {j : Json} (h : j.Plain) : j.text ≠ "" := by
  intro hempty
  obtain ⟨c, hc, -⟩ := Json.head_text h
  rw [hempty] at hc
  cases hc

theorem write_eq (h : format.Documented) (item : StreamItem) :
    item.write format = if item.IsWritable then some (Json.utf8 item.text) else none := by
  cases item with
  | event message =>
      by_cases hname : OneLine message.event.toList
      · refine Eq.trans ?_ (if_pos hname).symm
        exact h.event_eq _ _ hname (oneLine_text message.plain) (text_ne_empty message.plain)
      · exact (h.event_eq_none _ _ hname).trans (if_neg hname).symm
  | keepAlive => exact (h.comment_eq _ (by decide)).trans (if_pos trivial).symm

theorem streamBody_eq (h : format.Documented) (items : List StreamItem) :
    streamBody format items = Json.utf8 ((sentItems items).flatMap StreamItem.text) := by
  induction items with
  | nil => rfl
  | cons item items ih =>
      rw [streamBody, write_eq h, sentItems, List.takeWhile_cons]
      by_cases hitem : item.IsWritable
      · rw [if_pos hitem, if_pos (decide_eq_true hitem), List.flatMap_cons, Json.utf8_append]
        exact congrArg (Json.utf8 item.text ++ ·) ih
      · rw [if_neg hitem, if_neg (by simpa using hitem)]
        rfl

theorem streamBody_isPrefix (format : EventFormat) (items more : List StreamItem) :
    streamBody format items <+: streamBody format (items ++ more) := by
  induction items with
  | nil => exact List.nil_prefix
  | cons item items ih =>
      rw [List.cons_append, streamBody, streamBody]
      cases item.write format with
      | none => exact List.prefix_rfl
      | some bytes => exact (List.prefix_append_right_inj bytes).2 ih

theorem isWritable_of_mem (h : item ∈ sentItems items) : item.IsWritable := by
  have hall := List.all_takeWhile (p := fun item : StreamItem => decide item.IsWritable) (l := items)
  exact of_decide_eq_true (List.all_eq_true.1 hall item h)

end Text

end Evobase
