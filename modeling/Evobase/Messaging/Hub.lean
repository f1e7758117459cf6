import Evobase.Foundation.OrdMap
import Evobase.Foundation.Run

/-!
# The messaging hub

A hub hands the events for a user to the connections of the user, or queues them while there are
none, until they expire. Every operation takes the lock once; what it does under the lock is one
step. A new connection is sent the queue that it has taken after it has released the lock, in a
step of its own, and has its receiver then. The clock moves on by what a step says.

The queue that a new connection has taken is in the state as its replay, until the replay is sent.
Times are natural numbers, and the lifetime of a queued event is a parameter that can be zero.
-/

namespace Evobase

open Foundation

/-- The channel of a connection: the events sent to it, and whether its receiver is alive. -/
structure Channel (E : Type) where
  received : List E
  isOpen : Bool

def Channel.push {E : Type} (channel : Channel E) (event : E) : Channel E :=
  if channel.isOpen then { channel with received := channel.received ++ [event] } else channel

structure QueuedMessage (E : Type) where
  event : E
  expiresAt : Nat

structure MessagingDelivery where
  deliveredConnections : Nat
  queuedMessages : Nat
deriving DecidableEq

structure MessagingConnection (C : Type) where
  connectionId : C
  receiver : Nat
  replayedMessages : Nat

section Hub

variable {U C E : Type} [LinearOrder U] [LinearOrder C]

/-- Connections have the number of their channel for a sender. -/
structure HubState (U C E : Type) [LinearOrder U] [LinearOrder C] where
  connections : OrdMap U (OrdMap C Nat)
  queuedMessages : OrdMap U (List (QueuedMessage E))

namespace HubState

def takeQueuedMessages (state : HubState U C E) (user : U) : List E × HubState U C E :=
  (((state.queuedMessages.get? user).getD []).map (·.event),
    { state with queuedMessages := state.queuedMessages.erase user })

def queueMessage (state : HubState U C E) (user : U) (event : E) (expiresAt : Nat) :
    HubState U C E :=
  let messages := (state.queuedMessages.get? user).getD []
  { state with queuedMessages :=
      state.queuedMessages.insert user (messages ++ [⟨event, expiresAt⟩]) }

def setConnections (state : HubState U C E) (user : U) (rest : OrdMap C Nat) : HubState U C E :=
  { state with connections := if rest.entries = [] then state.connections.erase user
      else state.connections.insert user rest }

/-- The event is sent to every connection of the user; those whose receiver is gone are removed,
and the user with the last of them. -/
def deliverToActiveConnections (state : HubState U C E) (channels : Nat → Channel E) (user : U)
    (event : E) : Nat × HubState U C E × (Nat → Channel E) :=
  match state.connections.get? user with
  | none => (0, state, channels)
  | some userConnections =>
      let alive := userConnections.entries.filter fun entry => (channels entry.2).isOpen
      let stale := userConnections.entries.filter fun entry => !(channels entry.2).isOpen
      let rest := stale.foldl (fun rest entry => rest.erase entry.1) userConnections
      (alive.length, state.setConnections user rest,
        alive.foldl (fun channels entry =>
          Function.update channels entry.2 ((channels entry.2).push event)) channels)

def pruneExpiredMessages (state : HubState U C E) (now : Nat) : Nat × HubState U C E :=
  let retained := state.queuedMessages.mapEntries fun _ messages =>
    messages.filter fun message => now < message.expiresAt
  ((state.queuedMessages.values.map List.length).sum - (retained.values.map List.length).sum,
    { state with queuedMessages :=
        retained.restrict fun user => (retained.get? user).getD [] ≠ [] })

def registered (state : HubState U C E) (user : U) (connectionId : C) : Option Nat :=
  (state.connections.get? user).bind (·.get? connectionId)

def queueOf (state : HubState U C E) (user : U) : List (QueuedMessage E) :=
  (state.queuedMessages.get? user).getD []

/-- The connections of a user whose receiver is alive, by their channels. -/
def receivers (state : HubState U C E) (channels : Nat → Channel E) (user : U) : List Nat :=
  (((state.connections.get? user).getD .empty).entries.filter fun entry =>
    (channels entry.2).isOpen).map (·.2)

/-- No user has an empty map of connections or an empty queue. -/
structure Tidy (state : HubState U C E) : Prop where
  connections : ∀ user connections, state.connections.get? user = some connections →
    connections.entries ≠ []
  queues : ∀ user, state.queuedMessages.get? user ≠ some []

section Lemmas

variable {state : HubState U C E} {user u : U} {connectionId c : C} {event : E} {now r : Nat}
  {rest : OrdMap C Nat} {channels : Nat → Channel E}

theorem queueOf_takeQueuedMessages :
    (state.takeQueuedMessages user).2.queueOf u = if u = user then [] else state.queueOf u := by
  simp only [takeQueuedMessages, queueOf, OrdMap.get?_erase]
  split_ifs <;> rfl

theorem queueOf_queueMessage : (state.queueMessage user event now).queueOf u =
    if u = user then state.queueOf user ++ [⟨event, now⟩] else state.queueOf u := by
  simp only [queueMessage, queueOf, OrdMap.get?_insert]
  split_ifs <;> rfl

theorem registered_setConnections : (state.setConnections user rest).registered u c =
    if u = user then rest.get? c else state.registered u c := by
  unfold setConnections registered
  by_cases hempty : rest.entries = []
  · rw [if_pos hempty, OrdMap.get?_erase]
    split_ifs
    · rw [OrdMap.get?, hempty]
      rfl
    · rfl
  · rw [if_neg hempty, OrdMap.get?_insert]
    split_ifs <;> rfl

theorem registered_insert : registered { state with
    connections := state.connections.insert user
      (((state.connections.get? user).getD .empty).insert connectionId r) } u c =
      if u = user ∧ c = connectionId then some r else state.registered u c := by
  unfold registered
  rw [OrdMap.get?_insert]
  by_cases hu : u = user
  · subst hu
    rw [if_pos rfl, Option.bind_some, OrdMap.get?_insert]
    by_cases hc : c = connectionId
    · rw [if_pos hc, if_pos ⟨rfl, hc⟩]
    · rw [if_neg hc, if_neg fun h => hc h.2]
      cases state.connections.get? u <;> rfl
  · rw [if_neg hu, if_neg fun h => hu h.1]

theorem get?_queuedMessages_pruneExpiredMessages :
    (state.pruneExpiredMessages now).2.queuedMessages.get? u =
      ((state.queuedMessages.get? u).map (List.filter fun message => now < message.expiresAt)).filter
        (· ≠ []) := by
  simp only [pruneExpiredMessages, OrdMap.get?_restrict, OrdMap.get?_mapEntries]
  cases state.queuedMessages.get? u with
  | none => simp
  | some messages =>
      simp only [Option.map_some, Option.getD_some, Option.filter_some, decide_not,
        Bool.not_eq_true', decide_eq_false_iff_not]

theorem queueOf_pruneExpiredMessages : (state.pruneExpiredMessages now).2.queueOf u =
    (state.queueOf u).filter fun message => now < message.expiresAt := by
  rw [queueOf, get?_queuedMessages_pruneExpiredMessages, queueOf]
  cases state.queuedMessages.get? u with
  | none => rfl
  | some messages =>
      rw [Option.map_some, Option.filter_some, Option.getD_some]
      split_ifs with hempty
      · rfl
      · have hnil : messages.filter (fun message => now < message.expiresAt) = [] := by
          simpa using hempty
        exact hnil.symm

theorem Tidy.takeQueuedMessages (h : state.Tidy) : (state.takeQueuedMessages user).2.Tidy := by
  refine ⟨h.connections, fun u hget => ?_⟩
  simp only [HubState.takeQueuedMessages, OrdMap.get?_erase] at hget
  split_ifs at hget
  exact h.queues u hget

theorem Tidy.queueMessage (h : state.Tidy) : (state.queueMessage user event now).Tidy := by
  refine ⟨h.connections, fun u hget => ?_⟩
  simp only [HubState.queueMessage, OrdMap.get?_insert] at hget
  split_ifs at hget
  · simp at hget
  · exact h.queues u hget

theorem Tidy.setConnections (h : state.Tidy) : (state.setConnections user rest).Tidy := by
  refine ⟨fun u connections hget => ?_, h.queues⟩
  unfold HubState.setConnections at hget
  by_cases hempty : rest.entries = []
  · rw [if_pos hempty, OrdMap.get?_erase] at hget
    split_ifs at hget
    exact h.connections u connections hget
  · rw [if_neg hempty, OrdMap.get?_insert] at hget
    split_ifs at hget
    · exact Option.some.inj hget ▸ hempty
    · exact h.connections u connections hget

theorem Tidy.pruneExpiredMessages (h : state.Tidy) : (state.pruneExpiredMessages now).2.Tidy := by
  refine ⟨h.connections, fun u hget => ?_⟩
  rw [get?_queuedMessages_pruneExpiredMessages, Option.filter_eq_some_iff] at hget
  simpa using hget.2

theorem Tidy.insert (h : state.Tidy) (userConnections : OrdMap C Nat) : Tidy { state with
    connections := state.connections.insert user (userConnections.insert connectionId r) } := by
  refine ⟨fun u connections hget => ?_, h.queues⟩
  rw [OrdMap.get?_insert] at hget
  split_ifs at hget
  · obtain rfl := Option.some.inj hget
    have hmem : (connectionId, r) ∈ (userConnections.insert connectionId r).entries :=
      OrdMap.mem_entries_iff.2 (OrdMap.get?_insert_self _ _ _)
    exact List.ne_nil_of_mem hmem
  · exact h.connections u connections hget

theorem mem_receivers : r ∈ state.receivers channels user ↔
    (∃ c, state.registered user c = some r) ∧ (channels r).isOpen = true := by
  unfold receivers registered
  cases state.connections.get? user with
  | none => simp [OrdMap.empty]
  | some userConnections =>
      simp only [Option.getD_some, Option.bind_some, List.mem_map, List.mem_filter, Prod.exists,
        OrdMap.mem_entries_iff]
      constructor
      · rintro ⟨c, _, ⟨hget, hopen⟩, rfl⟩
        exact ⟨⟨c, hget⟩, hopen⟩
      · rintro ⟨⟨c, hget⟩, hopen⟩
        exact ⟨c, r, ⟨hget, hopen⟩, rfl⟩

/-- Different connections have different channels. -/
theorem nodup_receivers (h : ∀ c c' r, state.registered user c = some r →
    state.registered user c' = some r → c = c') : (state.receivers channels user).Nodup := by
  unfold receivers
  refine List.Nodup.map_on ?_ (List.Nodup.filter _ ?_)
  · rintro ⟨c, r⟩ hmem ⟨c', r'⟩ hmem' heq
    obtain rfl : r = r' := heq
    have hget {c : C} (hmem : (c, r) ∈ ((state.connections.get? user).getD .empty).entries) :
        state.registered user c = some r := by
      unfold registered
      cases hconnections : state.connections.get? user with
      | none => simp [hconnections, OrdMap.empty] at hmem
      | some userConnections =>
          rw [hconnections, Option.getD_some, OrdMap.mem_entries_iff] at hmem
          rw [Option.bind_some, hmem]
    obtain rfl := h c c' r (hget (List.mem_filter.1 hmem).1) (hget (List.mem_filter.1 hmem').1)
    rfl
  · exact (OrdMap.keys_nodup _).of_map

theorem get?_foldl_erase (l : List (C × Nat)) (m : OrdMap C Nat) :
    (l.foldl (fun rest entry => rest.erase entry.1) m).get? c =
      if c ∈ l.map (·.1) then none else m.get? c := by
  induction l generalizing m with
  | nil => simp
  | cons entry l ih =>
      rw [List.foldl_cons, ih, OrdMap.get?_erase, List.map_cons]
      by_cases hc : c = entry.1
      · simp [hc]
      · rw [if_neg hc]
        exact if_congr (List.mem_cons.trans (or_iff_right hc)).symm rfl rfl

omit [LinearOrder C] in
theorem foldl_update_push (l : List (C × Nat)) (hnodup : (l.map (·.2)).Nodup) :
    (l.foldl (fun channels entry =>
        Function.update channels entry.2 ((channels entry.2).push event)) channels) r =
      if r ∈ l.map (·.2) then (channels r).push event else channels r := by
  induction l generalizing channels with
  | nil => simp
  | cons entry l ih =>
      rw [List.map_cons, List.nodup_cons] at hnodup
      rw [List.foldl_cons, ih hnodup.2, List.map_cons]
      by_cases hr : r = entry.2
      · subst hr
        simp [hnodup.1]
      · rw [Function.update_of_ne hr]
        exact if_congr (List.mem_cons.trans (or_iff_right hr)).symm rfl rfl

theorem fst_deliverToActiveConnections :
    (state.deliverToActiveConnections channels user event).1 =
      (state.receivers channels user).length := by
  unfold deliverToActiveConnections receivers
  cases state.connections.get? user with
  | none => rfl
  | some userConnections => simp

theorem registered_deliverToActiveConnections :
    (state.deliverToActiveConnections channels user event).2.1.registered u c =
      if u = user then (state.registered user c).filter fun r => (channels r).isOpen
      else state.registered u c := by
  unfold deliverToActiveConnections
  cases hconnections : state.connections.get? user with
  | none =>
      have hnone : state.registered user c = none := by rw [registered, hconnections]; rfl
      split_ifs with hu
      · subst hu
        rw [hnone]
        rfl
      · rfl
  | some userConnections =>
      have hget : state.registered user c = userConnections.get? c := by
        rw [registered, hconnections]
        rfl
      simp only
      rw [registered_setConnections, hget, get?_foldl_erase]
      split_ifs with hu hstale
      · simp only [List.mem_map, List.mem_filter, Prod.exists, OrdMap.mem_entries_iff] at hstale
        obtain ⟨_, r, ⟨hr, hclosed⟩, rfl⟩ := hstale
        rw [hr, Option.filter_some, if_neg (by simpa using hclosed)]
      · cases hr : userConnections.get? c with
        | none => rfl
        | some r =>
            have hopen : (channels r).isOpen = true := by
              by_contra hclosed
              refine hstale (List.mem_map.2 ⟨(c, r), List.mem_filter.2 ⟨?_, ?_⟩, rfl⟩)
              · exact OrdMap.mem_entries_iff.2 hr
              · simpa using hclosed
            rw [Option.filter_some, if_pos hopen]
      · rfl

@[simp] theorem queueOf_deliverToActiveConnections :
    (state.deliverToActiveConnections channels user event).2.1.queueOf u = state.queueOf u := by
  unfold deliverToActiveConnections
  cases state.connections.get? user <;> rfl

theorem Tidy.deliverToActiveConnections (h : state.Tidy) :
    (state.deliverToActiveConnections channels user event).2.1.Tidy := by
  unfold HubState.deliverToActiveConnections
  cases state.connections.get? user with
  | none => exact h
  | some userConnections => exact h.setConnections

theorem channels_deliverToActiveConnections
    (hnodup : (state.receivers channels user).Nodup) (event : E) (r : Nat) :
    (state.deliverToActiveConnections channels user event).2.2 r =
      if r ∈ state.receivers channels user then (channels r).push event else channels r := by
  unfold receivers at hnodup ⊢
  unfold deliverToActiveConnections
  cases hconnections : state.connections.get? user with
  | none => simp [OrdMap.empty]
  | some userConnections =>
      rw [hconnections, Option.getD_some] at hnodup
      exact foldl_update_push _ hnodup

theorem received_deliverToActiveConnections
    (hnodup : (state.receivers channels user).Nodup) (event : E) (r : Nat) :
    ((state.deliverToActiveConnections channels user event).2.2 r).received =
      if r ∈ state.receivers channels user then (channels r).received ++ [event]
      else (channels r).received := by
  rw [channels_deliverToActiveConnections hnodup]
  split_ifs with hr
  · rw [Channel.push, if_pos (mem_receivers.1 hr).2]
  · rfl

theorem isOpen_deliverToActiveConnections
    (hnodup : (state.receivers channels user).Nodup) (event : E) (r : Nat) :
    ((state.deliverToActiveConnections channels user event).2.2 r).isOpen =
      (channels r).isOpen := by
  rw [channels_deliverToActiveConnections hnodup]
  split_ifs with hr
  · rw [Channel.push, if_pos (mem_receivers.1 hr).2]
  · rfl

theorem registered_of_deliverToActiveConnections
    (hr : (state.deliverToActiveConnections channels user event).2.1.registered u c = some r) :
    state.registered u c = some r ∧ (u = user → (channels r).isOpen = true) := by
  rw [registered_deliverToActiveConnections] at hr
  split_ifs at hr with hu
  · obtain ⟨hget, hopen⟩ := Option.filter_eq_some_iff.1 hr
    exact ⟨hu ▸ hget, fun _ => hopen⟩
  · exact ⟨hr, fun heq => absurd heq hu⟩

end Lemmas

end HubState

/-- A connection that has released the lock and is still to be sent its backlog. -/
structure Replay (C E : Type) where
  connectionId : C
  sender : Nat
  backlog : List E

/-- The hub with its clock, the channels created so far and the pending replays. -/
structure Hub (U C E : Type) [LinearOrder U] [LinearOrder C] where
  state : HubState U C E
  clock : Nat
  created : Nat
  channels : Nat → Channel E
  replays : List (Replay C E)

inductive HubCall (U C E : Type) where
  /-- The locked section of `connect`. -/
  | connect (user : U) (connectionId : C)
  /-- The sends that end `connect`, for the channel that it has created. -/
  | replay (sender : Nat)
  | disconnect (user : U) (connectionId : C)
  | send (user : U) (event : E)
  | prune
  | dropReceiver (receiver : Nat)

inductive HubReply (C : Type) where
  | connecting (sender : Nat)
  | connected (connection : MessagingConnection C)
  | delivery (delivery : MessagingDelivery)
  | pruned (expiredMessages : Nat)
  | done

namespace Hub

def new : Hub U C E := ⟨⟨.empty, .empty⟩, 0, 0, fun _ => ⟨[], false⟩, []⟩

/-- The sends of a backlog, up to the first that fails. -/
def replayTo (channels : Nat → Channel E) (sender : Nat) : List E → (Nat → Channel E)
  | [] => channels
  | event :: rest =>
      if (channels sender).isOpen then
        replayTo (Function.update channels sender ((channels sender).push event)) sender rest
      else channels

def pruned (hub : Hub U C E) : Hub U C E :=
  { hub with state := (hub.state.pruneExpiredMessages hub.clock).2 }

/-- A new connection is registered and takes the queue of its user. -/
def attach (hub : Hub U C E) (user : U) (connectionId : C) : HubReply C × Hub U C E :=
  let userConnections := (hub.state.connections.get? user).getD .empty
  let state := { hub.state with connections :=
    hub.state.connections.insert user (userConnections.insert connectionId hub.created) }
  let (backlog, state) := state.takeQueuedMessages user
  (.connecting hub.created,
    { hub with
      state
      created := hub.created + 1
      channels := Function.update hub.channels hub.created ⟨[], true⟩
      replays := ⟨connectionId, hub.created, backlog⟩ :: hub.replays })

def connect (hub : Hub U C E) (user : U) (connectionId : C) : HubReply C × Hub U C E :=
  hub.pruned.attach user connectionId

def replay (hub : Hub U C E) (sender : Nat) : HubReply C × Hub U C E :=
  match hub.replays.find? fun replay => replay.sender = sender with
  | some replay =>
      (.connected ⟨replay.connectionId, sender, replay.backlog.length⟩,
        { hub with
          channels := replayTo hub.channels sender replay.backlog
          replays := hub.replays.filter fun replay => replay.sender ≠ sender })
  | none => (.done, hub)

/-- A connection is removed, and the user with the last one. -/
def detach (hub : Hub U C E) (user : U) (connectionId : C) : HubReply C × Hub U C E :=
  match hub.state.connections.get? user with
  | some userConnections =>
      let rest := userConnections.erase connectionId
      (.done, { hub with state := hub.state.setConnections user rest })
  | none => (.done, hub)

def disconnect (hub : Hub U C E) (user : U) (connectionId : C) : HubReply C × Hub U C E :=
  hub.pruned.detach user connectionId

/-- An event is handed to the connections of the user, or queued when it has reached none. -/
def deliver (offlineMessageTtl : Nat) (hub : Hub U C E) (user : U) (event : E) :
    HubReply C × Hub U C E :=
  let (delivered, state, channels) :=
    hub.state.deliverToActiveConnections hub.channels user event
  if delivered = 0 then
    let state := state.queueMessage user event (hub.clock + offlineMessageTtl)
    (.delivery ⟨0, 1⟩, { hub with state, channels })
  else (.delivery ⟨delivered, 0⟩, { hub with state, channels })

def send (offlineMessageTtl : Nat) (hub : Hub U C E) (user : U) (event : E) :
    HubReply C × Hub U C E :=
  hub.pruned.deliver offlineMessageTtl user event

/-- A receiver can be dropped once `connect` has returned it. -/
def dropReceiver (hub : Hub U C E) (receiver : Nat) : HubReply C × Hub U C E :=
  if ∃ replay ∈ hub.replays, replay.sender = receiver then (.done, hub)
  else (.done, { hub with
    channels := Function.update hub.channels receiver ⟨(hub.channels receiver).received, false⟩ })

/-- A call, some time after the one before. -/
def step (offlineMessageTtl : Nat) (hub : Hub U C E) (call : Nat × HubCall U C E) :
    HubReply C × Hub U C E :=
  let hub := { hub with clock := hub.clock + call.1 }
  match call.2 with
  | .connect user connectionId => hub.connect user connectionId
  | .replay sender => hub.replay sender
  | .disconnect user connectionId => hub.disconnect user connectionId
  | .send user event => hub.send offlineMessageTtl user event
  | .prune => (.pruned (hub.state.pruneExpiredMessages hub.clock).1, hub.pruned)
  | .dropReceiver receiver => hub.dropReceiver receiver

end Hub

end Hub

end Evobase
