import Evobase.Foundation.Broadcast
import Evobase.Foundation.OrdMap
import Evobase.Foundation.Run

/-!
# The topic hub

A topic hands a message to the receivers that it has, or queues it while it has none. A publish
takes the lock, counts the receivers, and sends the message to them while it still has the lock;
receivers come under the lock and go without it, so the last of them may be gone when the message
is sent.
-/

namespace Evobase

open Foundation

def topicChannelCapacity : Nat := 256
def topicQueueCapacity : Nat := 200

structure TopicState (M : Type) where
  sender : Broadcast M
  queuedMessages : List M

def TopicState.new {M : Type} : TopicState M := ⟨.new, []⟩

/-- The stream of a subscriber: the queued messages that it has yet to yield, the position of the
next message of the channel, and what it has yielded. -/
structure TopicReceiver (T M : Type) where
  topic : T
  backlog : List M
  next : Nat
  yielded : List M
  isOpen : Bool

section Hub

variable {T M : Type} [LinearOrder T]

/-- The topics, the receivers there have been, and the message of the publish that has the lock. -/
structure TopicHub (T M : Type) [LinearOrder T] where
  topics : OrdMap T (TopicState M)
  receivers : List (TopicReceiver T M)
  publishing : Option (T × M)

/-- A publish counts the receivers and sends in two steps. -/
inductive TopicAction (T M : Type) where
  | publish (topic : T) (message : M)
  | send
  | subscribe (topic : T)
  | poll (receiver : Nat)
  | dropReceiver (receiver : Nat)

namespace TopicHub

def new : TopicHub T M := ⟨.empty, [], none⟩

def state (hub : TopicHub T M) (topic : T) : TopicState M :=
  (hub.topics.get? topic).getD .new

def live (hub : TopicHub T M) (topic : T) : List Nat :=
  (List.range hub.receivers.length).filter fun r =>
    hub.receivers[r]?.any fun receiver => receiver.isOpen && decide (receiver.topic = topic)

def receiverCount (hub : TopicHub T M) (topic : T) : Nat := (hub.live topic).length

/-- The queue of a topic with a message more, and without the oldest one when it is full. -/
def enqueue (queue : List M) (message : M) : List M :=
  (if topicQueueCapacity ≤ queue.length then queue.tail else queue) ++ [message]

/-- The first step of a publish: without receivers the message is queued. -/
def publish (hub : TopicHub T M) (topic : T) (message : M) : TopicHub T M :=
  let state := hub.state topic
  if hub.receiverCount topic = 0 then
    { hub with
      topics := hub.topics.insert topic
        { state with queuedMessages := enqueue state.queuedMessages message } }
  else
    { hub with
      topics := hub.topics.insert topic state
      publishing := some (topic, message) }

/-- The second step of a publish. A send without receivers fails, and the failure is ignored. -/
def send (hub : TopicHub T M) (topic : T) (message : M) : TopicHub T M :=
  let state := hub.state topic
  if hub.receiverCount topic = 0 then { hub with publishing := none }
  else
    { hub with
      topics := hub.topics.insert topic { state with sender := state.sender.send topicChannelCapacity message }
      publishing := none }

def subscribe (hub : TopicHub T M) (topic : T) : TopicHub T M :=
  let state := hub.state topic
  { hub with
    topics := hub.topics.insert topic { state with queuedMessages := [] }
    receivers := hub.receivers ++
      [⟨topic, state.queuedMessages, state.sender.position, [], true⟩] }

/-- The stream goes on: it yields a queued message, or what it receives. A receiver that has
lagged goes on. -/
def advance (channel : Broadcast M) (receiver : TopicReceiver T M) : TopicReceiver T M :=
  match receiver.backlog with
  | message :: rest =>
      { receiver with backlog := rest, yielded := receiver.yielded ++ [message] }
  | [] =>
      match channel.receive receiver.next with
      | (.message message, next) =>
          { receiver with next, yielded := receiver.yielded ++ [message] }
      | (_, next) => { receiver with next }

/-- One step of a publisher, a subscriber or a stream. The lock is free when no publish has it. -/
def step (hub : TopicHub T M) : TopicAction T M → Option (TopicHub T M)
  | .publish topic message =>
      match hub.publishing with
      | none => some (hub.publish topic message)
      | some _ => none
  | .send => hub.publishing.map fun publishing => hub.send publishing.1 publishing.2
  | .subscribe topic =>
      match hub.publishing with
      | none => some (hub.subscribe topic)
      | some _ => none
  | .poll r =>
      match hub.receivers[r]? with
      | some receiver =>
          if receiver.isOpen = true then
            some { hub with
              receivers := hub.receivers.set r
                (advance (hub.state receiver.topic).sender receiver) }
          else none
      | none => none
  | .dropReceiver r =>
      match hub.receivers[r]? with
      | some receiver =>
          if receiver.isOpen = true then
            some { hub with receivers := hub.receivers.set r { receiver with isOpen := false } }
          else none
      | none => none

section Lemmas

variable {hub : TopicHub T M} {topic t : T} {message : M} {r : Nat} {queue : List M}

theorem length_enqueue (h : queue.length ≤ topicQueueCapacity) :
    (enqueue queue message).length ≤ topicQueueCapacity := by
  unfold enqueue
  split_ifs with hfull
  · rw [List.length_append, List.length_tail, List.length_singleton, le_antisymm h hfull]
    decide
  · rw [List.length_append, List.length_singleton]
    omega

theorem state_insert (topics : OrdMap T (TopicState M)) (state : TopicState M)
    (receivers receivers' : List (TopicReceiver T M)) (publishing publishing' : Option (T × M)) :
    (⟨topics.insert topic state, receivers, publishing⟩ : TopicHub T M).state t =
      if t = topic then state else (⟨topics, receivers', publishing'⟩ : TopicHub T M).state t := by
  simp only [TopicHub.state, OrdMap.get?_insert]
  split_ifs <;> rfl

theorem mem_live : r ∈ hub.live topic ↔ ∃ receiver, hub.receivers[r]? = some receiver ∧
    receiver.isOpen = true ∧ receiver.topic = topic := by
  rw [live, List.mem_filter, List.mem_range, Option.any_eq_true]
  constructor
  · rintro ⟨-, receiver, hreceiver, hlive⟩
    exact ⟨receiver, hreceiver, by simpa using hlive⟩
  · rintro ⟨receiver, hreceiver, hlive⟩
    exact ⟨(List.getElem?_eq_some_iff.1 hreceiver).1, receiver, hreceiver, by simpa using hlive⟩

theorem nodup_live (hub : TopicHub T M) (topic : T) : (hub.live topic).Nodup :=
  List.nodup_range.filter _

theorem receiverCount_eq_zero_iff : hub.receiverCount topic = 0 ↔ hub.live topic = [] :=
  List.length_eq_zero_iff

/-- What a step can do. -/
theorem step_cases {action : TopicAction T M} {next : TopicHub T M}
    (h : hub.step action = some next) :
    (∃ topic message, action = .publish topic message ∧ hub.publishing = none ∧
      next = hub.publish topic message) ∨
    (∃ topic message, action = .send ∧ hub.publishing = some (topic, message) ∧
      next = hub.send topic message) ∨
    (∃ topic, action = .subscribe topic ∧ hub.publishing = none ∧ next = hub.subscribe topic) ∨
    (∃ r receiver, action = .poll r ∧ hub.receivers[r]? = some receiver ∧
      receiver.isOpen = true ∧ next = { hub with
        receivers := hub.receivers.set r (advance (hub.state receiver.topic).sender receiver) }) ∨
    ∃ r receiver, action = .dropReceiver r ∧ hub.receivers[r]? = some receiver ∧
      receiver.isOpen = true ∧ next = { hub with
        receivers := hub.receivers.set r { receiver with isOpen := false } } := by
  cases action with
  | publish topic message =>
      simp only [step] at h
      split at h
      · exact .inl ⟨topic, message, rfl, ‹_›, (Option.some.inj h).symm⟩
      · cases h
  | send =>
      obtain ⟨⟨topic, message⟩, hpublishing, rfl⟩ := Option.map_eq_some_iff.1 h
      exact .inr (.inl ⟨topic, message, rfl, hpublishing, rfl⟩)
  | subscribe topic =>
      simp only [step] at h
      split at h
      · exact .inr (.inr (.inl ⟨topic, rfl, ‹_›, (Option.some.inj h).symm⟩))
      · cases h
  | poll r =>
      simp only [step] at h
      split at h
      · rename_i receiver hreceiver
        split_ifs at h with hopen
        exact .inr (.inr (.inr (.inl ⟨r, receiver, rfl, hreceiver, hopen,
          (Option.some.inj h).symm⟩)))
      · cases h
  | dropReceiver r =>
      simp only [step] at h
      split at h
      · rename_i receiver hreceiver
        split_ifs at h with hopen
        exact .inr (.inr (.inr (.inr ⟨r, receiver, rfl, hreceiver, hopen,
          (Option.some.inj h).symm⟩)))
      · cases h

end Lemmas

end TopicHub

end Hub

end Evobase
