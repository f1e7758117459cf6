import Evobase.Messaging.Hub

/-!
# What becomes of the events

A ledger has an entry for every event sent, in the order of the sends, with its fate: it was
handed to receivers when it was sent, or it is queued, or it was pruned, or a later connection has
taken it. The state of the hub is what the ledger says: its queues hold the queued events and its
channels the events handed to them and taken for them.

`Hub.Conserves` says of every channel what it has received: the events handed to it and, unless
its replay is pending, the events taken for it. Each operation of the hub changes the fates of
some entries and appends at most one.
-/

namespace Evobase

open Foundation

inductive Fate where
  | handed (receivers : List Nat)
  | queued
  | pruned (time : Nat)
  | taken (receiver : Nat)
deriving DecidableEq

/-- An event sent, with the number of connections made and of prunes done before. -/
structure Sent (U E : Type) where
  user : U
  event : E
  sentAt : Nat
  expiresAt : Nat
  connects : Nat
  prunes : Nat
  fate : Fate

section Ledger

variable {U C E : Type} [LinearOrder U] [LinearOrder C]

namespace Sent

def prune (now : Nat) (sent : Sent U E) : Sent U E :=
  if sent.fate = .queued ∧ sent.expiresAt ≤ now then { sent with fate := .pruned now } else sent

def take (user : U) (receiver : Nat) (sent : Sent U E) : Sent U E :=
  if sent.fate = .queued ∧ sent.user = user then { sent with fate := .taken receiver } else sent

def queuedFor (user : U) (sent : Sent U E) : Option (QueuedMessage E) :=
  if sent.fate = .queued ∧ sent.user = user then some ⟨sent.event, sent.expiresAt⟩ else none

def takenBy (receiver : Nat) (sent : Sent U E) : Option E :=
  if sent.fate = .taken receiver then some sent.event else none

def handedTo (receiver : Nat) (sent : Sent U E) : Option E :=
  match sent.fate with
  | .handed receivers => if receiver ∈ receivers then some sent.event else none
  | _ => none

/-- What the send has reported. -/
def delivery (sent : Sent U E) : MessagingDelivery :=
  match sent.fate with
  | .handed receivers => ⟨receivers.length, 0⟩
  | _ => ⟨0, 1⟩

end Sent

/-- The events sent, the users of the connections made, and the last prune. -/
structure Ledger (U E : Type) where
  entries : List (Sent U E)
  owners : List U
  prunes : Nat
  lastPrune : Nat

namespace Ledger

def new : Ledger U E := ⟨[], [], 0, 0⟩

def prune (now : Nat) (ledger : Ledger U E) : Ledger U E :=
  { ledger with
    entries := ledger.entries.map (Sent.prune now)
    prunes := ledger.prunes + 1
    lastPrune := now }

/-- A new connection takes the queued events of its user. -/
def connect (user : U) (ledger : Ledger U E) : Ledger U E :=
  { ledger with
    entries := ledger.entries.map (Sent.take user ledger.owners.length)
    owners := ledger.owners ++ [user] }

/-- An event is handed to the receivers that there are, or queued. -/
def send (ttl : Nat) (user : U) (event : E) (receivers : List Nat) (ledger : Ledger U E) :
    Ledger U E :=
  { ledger with entries := ledger.entries ++ [⟨user, event, ledger.lastPrune,
      ledger.lastPrune + ttl, ledger.owners.length, ledger.prunes,
      if receivers = [] then .queued else .handed receivers⟩] }

/-- What a call of the hub does to the events. -/
def step (ttl : Nat) (hub : Hub U C E) (ledger : Ledger U E) (call : Nat × HubCall U C E) :
    Ledger U E :=
  let now := hub.clock + call.1
  match call.2 with
  | .connect user _ => (ledger.prune now).connect user
  | .send user event =>
      (ledger.prune now).send ttl user event (hub.state.receivers hub.channels user)
  | .disconnect _ _ | .prune => ledger.prune now
  | .replay _ | .dropReceiver _ => ledger

def queued (ledger : Ledger U E) (user : U) : List (QueuedMessage E) :=
  ledger.entries.filterMap (Sent.queuedFor user)

def taken (ledger : Ledger U E) (receiver : Nat) : List E :=
  ledger.entries.filterMap (Sent.takenBy receiver)

def handed (ledger : Ledger U E) (receiver : Nat) : List E :=
  ledger.entries.filterMap (Sent.handedTo receiver)

end Ledger

/-- The fate of an event is one that it can have: it was handed to connections of its user that
were there, no prune since it was queued has found it expired, it was pruned at its expiry or
later, or a later connection of its user has taken it. -/
structure Sent.Faithful (ttl : Nat) (ledger : Ledger U E) (sent : Sent U E) : Prop where
  expiresAt : sent.expiresAt = sent.sentAt + ttl
  sentAt : sent.sentAt ≤ ledger.lastPrune
  connects : sent.connects ≤ ledger.owners.length
  handed : ∀ receivers, sent.fate = .handed receivers → receivers ≠ [] ∧ receivers.Nodup ∧
    ∀ r ∈ receivers, r < sent.connects ∧ ledger.owners[r]? = some sent.user
  queued : sent.fate = .queued → ledger.lastPrune < sent.expiresAt ∨
    sent.prunes = ledger.prunes ∧ sent.sentAt = ledger.lastPrune
  pruned : ∀ time, sent.fate = .pruned time →
    sent.sentAt ≤ time ∧ sent.expiresAt ≤ time ∧ time ≤ ledger.lastPrune
  taken : ∀ r, sent.fate = .taken r → sent.connects ≤ r ∧ ledger.owners[r]? = some sent.user

def Hub.Pending (hub : Hub U C E) (receiver : Nat) : Prop :=
  ∃ replay ∈ hub.replays, replay.sender = receiver

/-- The state of the hub is what the ledger says. -/
structure Hub.Conserves (ttl : Nat) (hub : Hub U C E) (ledger : Ledger U E) : Prop where
  tidy : hub.state.Tidy
  queue : ∀ user, hub.state.queueOf user = ledger.queued user
  disjoint : ∀ user c r, hub.state.registered user c = some r → hub.state.queueOf user = []
  registered : ∀ user c r, hub.state.registered user c = some r → ledger.owners[r]? = some user
  distinct : ∀ user c c' r, hub.state.registered user c = some r →
    hub.state.registered user c' = some r → c = c'
  created : hub.created = ledger.owners.length
  pending : ∀ r, hub.Pending r → (hub.channels r).received = ledger.handed r
  replayed : ∀ r, ¬ hub.Pending r → ∃ before after, ledger.handed r = before ++ after ∧
    (hub.channels r).received = before ++ ledger.taken r ++ after
  replays : ∀ replay ∈ hub.replays, replay.sender < hub.created ∧
    (hub.channels replay.sender).isOpen = true ∧ replay.backlog = ledger.taken replay.sender
  nodup : (hub.replays.map Replay.sender).Nodup
  closed : ∀ r, hub.created ≤ r → (hub.channels r).isOpen = false
  faithful : ∀ sent ∈ ledger.entries, sent.Faithful ttl ledger
  sorted : ledger.entries.Pairwise fun a b => a.connects ≤ b.connects
  clock : ledger.lastPrune ≤ hub.clock

section Entries

variable {ttl now r : Nat} {user u : U} {event : E} {receivers : List Nat} {sent : Sent U E}
  {ledger : Ledger U E}

omit [LinearOrder U] in
theorem takenBy_prune (sent : Sent U E) : (sent.prune now).takenBy r = sent.takenBy r := by
  unfold Sent.prune
  split_ifs with h
  · simp [Sent.takenBy, h.1]
  · rfl

omit [LinearOrder U] in
theorem handedTo_prune (sent : Sent U E) : (sent.prune now).handedTo r = sent.handedTo r := by
  unfold Sent.prune
  split_ifs with h
  · simp [Sent.handedTo, h.1]
  · rfl

theorem queuedFor_prune (sent : Sent U E) : (sent.prune now).queuedFor user =
    (sent.queuedFor user).filter fun message => now < message.expiresAt := by
  by_cases h : sent.fate = .queued ∧ sent.user = user
  · have hsome : sent.queuedFor user = some ⟨sent.event, sent.expiresAt⟩ := if_pos h
    rw [hsome, Option.filter_some]
    unfold Sent.prune
    by_cases hexpired : sent.expiresAt ≤ now
    · rw [if_pos ⟨h.1, hexpired⟩, if_neg (by simpa using hexpired)]
      simp [Sent.queuedFor]
    · rw [if_neg fun hpruned => hexpired hpruned.2, if_pos (by simpa using hexpired), hsome]
  · have hnone : sent.queuedFor user = none := if_neg h
    rw [hnone, Option.filter_none]
    unfold Sent.prune
    split_ifs
    · simp [Sent.queuedFor]
    · exact hnone

theorem handedTo_take (sent : Sent U E) (receiver : Nat) :
    (sent.take user receiver).handedTo r = sent.handedTo r := by
  unfold Sent.take
  split_ifs with h
  · simp [Sent.handedTo, h.1]
  · rfl

theorem queuedFor_take (sent : Sent U E) (receiver : Nat) :
    (sent.take user receiver).queuedFor u = if u = user then none else sent.queuedFor u := by
  unfold Sent.take
  split_ifs with h hu hu
  · simp [Sent.queuedFor]
  · simp [Sent.queuedFor, h.2, Ne.symm hu]
  · exact if_neg (hu ▸ h)
  · rfl

theorem takenBy_take (sent : Sent U E) (receiver : Nat) : (sent.take user receiver).takenBy r =
    if r = receiver then ((sent.queuedFor user).map (·.event)).or (sent.takenBy r)
    else sent.takenBy r := by
  unfold Sent.take
  split_ifs with h hr hr
  · simp [Sent.takenBy, Sent.queuedFor, h, hr]
  · simp [Sent.takenBy, h.1, Ne.symm hr]
  · rw [show sent.queuedFor user = none from if_neg h]
    rfl
  · rfl

omit [LinearOrder U] in
@[simp] theorem taken_prune : (ledger.prune now).taken r = ledger.taken r := by
  unfold Ledger.taken Ledger.prune
  rw [List.filterMap_map]
  exact List.filterMap_congr fun sent _ => takenBy_prune sent

omit [LinearOrder U] in
@[simp] theorem handed_prune : (ledger.prune now).handed r = ledger.handed r := by
  unfold Ledger.handed Ledger.prune
  rw [List.filterMap_map]
  exact List.filterMap_congr fun sent _ => handedTo_prune sent

theorem queued_prune : (ledger.prune now).queued user =
    (ledger.queued user).filter fun message => now < message.expiresAt := by
  unfold Ledger.queued Ledger.prune
  rw [List.filterMap_map, List.filter_filterMap]
  exact List.filterMap_congr fun sent _ => queuedFor_prune sent

@[simp] theorem handed_connect : (ledger.connect user).handed r = ledger.handed r := by
  unfold Ledger.handed Ledger.connect
  rw [List.filterMap_map]
  exact List.filterMap_congr fun sent _ => handedTo_take sent _

theorem queued_connect :
    (ledger.connect user).queued u = if u = user then [] else ledger.queued u := by
  unfold Ledger.queued Ledger.connect
  rw [List.filterMap_map]
  split_ifs with hu
  · rw [List.filterMap_eq_nil_iff]
    exact fun sent _ => (queuedFor_take sent _).trans (if_pos hu)
  · exact List.filterMap_congr fun sent _ => (queuedFor_take sent _).trans (if_neg hu)

omit [LinearOrder U] in
theorem handed_send : (ledger.send ttl user event receivers).handed r =
    if r ∈ receivers then ledger.handed r ++ [event] else ledger.handed r := by
  unfold Ledger.handed Ledger.send
  rw [List.filterMap_append]
  by_cases hempty : receivers = []
  · subst hempty
    simp [Sent.handedTo]
  · split_ifs with hr <;> simp [Sent.handedTo, hr]

omit [LinearOrder U] in
@[simp] theorem taken_send : (ledger.send ttl user event receivers).taken r = ledger.taken r := by
  unfold Ledger.taken Ledger.send
  rw [List.filterMap_append]
  by_cases hempty : receivers = [] <;> simp [Sent.takenBy, hempty]

theorem queued_send : (ledger.send ttl user event receivers).queued u =
    if u = user ∧ receivers = [] then ledger.queued u ++ [⟨event, ledger.lastPrune + ttl⟩]
    else ledger.queued u := by
  unfold Ledger.queued Ledger.send
  rw [List.filterMap_append]
  by_cases hempty : receivers = []
  · by_cases hu : u = user
    · simp [Sent.queuedFor, hempty, hu]
    · simp [Sent.queuedFor, hempty, hu, Ne.symm hu]
  · simp [Sent.queuedFor, hempty]

omit [LinearOrder U] in
theorem taken_eq_nil (hfaithful : ∀ sent ∈ ledger.entries, sent.Faithful ttl ledger)
    (hr : ledger.owners.length ≤ r) : ledger.taken r = [] := by
  rw [Ledger.taken, List.filterMap_eq_nil_iff]
  intro sent hsent
  refine if_neg fun hfate => ?_
  have howner := ((hfaithful sent hsent).taken r hfate).2
  rw [List.getElem?_eq_none hr] at howner
  cases howner

omit [LinearOrder U] in
theorem handed_eq_nil (hfaithful : ∀ sent ∈ ledger.entries, sent.Faithful ttl ledger)
    (hr : ledger.owners.length ≤ r) : ledger.handed r = [] := by
  rw [Ledger.handed, List.filterMap_eq_nil_iff]
  intro sent hsent
  unfold Sent.handedTo
  split
  · next receivers hfate =>
      refine if_neg fun hmem => ?_
      have howner := (((hfaithful sent hsent).handed receivers hfate).2.2 r hmem).2
      rw [List.getElem?_eq_none hr] at howner
      cases howner
  · rfl

theorem taken_connect (hfaithful : ∀ sent ∈ ledger.entries, sent.Faithful ttl ledger) :
    (ledger.connect user).taken r =
      if r = ledger.owners.length then (ledger.queued user).map (·.event) else ledger.taken r := by
  have hnil := taken_eq_nil hfaithful (le_refl ledger.owners.length)
  unfold Ledger.taken Ledger.connect at *
  rw [List.filterMap_map]
  split_ifs with hr
  · rw [Ledger.queued, List.map_filterMap]
    refine List.filterMap_congr fun sent hsent => ?_
    have hnone := List.filterMap_eq_nil_iff.1 hnil sent hsent
    rw [Function.comp_apply, takenBy_take, if_pos hr, hr, hnone, Option.or_none]
  · exact List.filterMap_congr fun sent _ => (takenBy_take sent _).trans (if_neg hr)

end Entries

section Faithful

variable {ttl now : Nat} {user : U} {event : E} {receivers : List Nat} {sent : Sent U E}
  {ledger : Ledger U E}

omit [LinearOrder U] in
theorem Sent.Faithful.prune (h : sent.Faithful ttl ledger) (hnow : ledger.lastPrune ≤ now) :
    (sent.prune now).Faithful ttl (ledger.prune now) := by
  unfold Sent.prune
  split_ifs with hprune
  · exact ⟨h.expiresAt, h.sentAt.trans hnow, h.connects, fun _ hfate => (nomatch hfate),
      fun hfate => (nomatch hfate), fun time hfate => Fate.pruned.inj hfate ▸
        ⟨h.sentAt.trans hnow, hprune.2, le_refl now⟩, fun _ hfate => (nomatch hfate)⟩
  · refine ⟨h.expiresAt, h.sentAt.trans hnow, h.connects, h.handed, fun hqueued => .inl ?_,
      fun time hfate => ?_, h.taken⟩
    · exact not_le.1 fun hle => hprune ⟨hqueued, hle⟩
    · obtain ⟨hsent, hexpires, hlast⟩ := h.pruned time hfate
      exact ⟨hsent, hexpires, hlast.trans hnow⟩

theorem owners_connect {r : Nat} (h : ledger.owners[r]? = some user) (u : U) :
    (ledger.connect u).owners[r]? = some user := by
  have hr : r < ledger.owners.length := (List.getElem?_eq_some_iff.1 h).1
  rw [Ledger.connect, List.getElem?_append_left hr, h]

theorem Sent.Faithful.connect (h : sent.Faithful ttl ledger) :
    (sent.take user ledger.owners.length).Faithful ttl (ledger.connect user) := by
  have hconnects : sent.connects ≤ (ledger.connect user).owners.length := by
    rw [Ledger.connect, List.length_append]
    exact h.connects.trans (Nat.le_add_right _ _)
  unfold Sent.take
  split_ifs with htake
  · refine ⟨h.expiresAt, h.sentAt, hconnects, fun _ hfate => (nomatch hfate),
      fun hfate => (nomatch hfate), fun _ hfate => (nomatch hfate), fun r hfate => ?_⟩
    obtain rfl := Fate.taken.inj hfate
    exact ⟨h.connects, by simp [Ledger.connect, htake.2]⟩
  · refine ⟨h.expiresAt, h.sentAt, hconnects, fun rs hfate => ?_, h.queued, h.pruned,
      fun r hfate => ?_⟩
    · obtain ⟨hne, hnodup, hall⟩ := h.handed rs hfate
      exact ⟨hne, hnodup, fun r hr => ⟨(hall r hr).1, owners_connect (hall r hr).2 user⟩⟩
    · exact ⟨(h.taken r hfate).1, owners_connect (h.taken r hfate).2 user⟩

omit [LinearOrder U] in
theorem faithful_send (event : E) (hnodup : receivers.Nodup)
    (howners : ∀ r ∈ receivers, ledger.owners[r]? = some user)
    (hfaithful : ∀ sent ∈ ledger.entries, sent.Faithful ttl ledger) :
    ∀ sent ∈ (ledger.send ttl user event receivers).entries,
      sent.Faithful ttl (ledger.send ttl user event receivers) := by
  intro sent hsent
  rcases List.mem_append.1 hsent with hsent | hsent
  · have h := hfaithful sent hsent
    exact ⟨h.expiresAt, h.sentAt, h.connects, h.handed, h.queued, h.pruned, h.taken⟩
  · obtain rfl := List.mem_singleton.1 hsent
    refine ⟨rfl, le_refl _, le_refl _, fun rs hfate => ?_, fun _ => .inr ⟨rfl, rfl⟩,
      fun time hfate => ?_, fun r hfate => ?_⟩
    · simp only at hfate
      split_ifs at hfate with hempty
      obtain rfl := Fate.handed.inj hfate
      exact ⟨hempty, hnodup, fun r hr =>
        ⟨(List.getElem?_eq_some_iff.1 (howners r hr)).1, howners r hr⟩⟩
    · simp only at hfate
      split_ifs at hfate
    · simp only at hfate
      split_ifs at hfate

end Faithful

section Steps

variable {ttl : Nat} {user : U} {connectionId : C} {event : E} {hub : Hub U C E}
  {ledger : Ledger U E}

theorem Hub.Conserves.advance (h : hub.Conserves ttl ledger) (elapsed : Nat) :
    Hub.Conserves ttl { hub with clock := hub.clock + elapsed } ledger :=
  ⟨h.tidy, h.queue, h.disjoint, h.registered, h.distinct, h.created, h.pending, h.replayed,
    h.replays, h.nodup, h.closed, h.faithful, h.sorted, h.clock.trans (Nat.le_add_right _ _)⟩

theorem Hub.Conserves.prune (h : hub.Conserves ttl ledger) :
    hub.pruned.Conserves ttl (ledger.prune hub.clock) where
  tidy := h.tidy.pruneExpiredMessages
  queue user := by
    rw [queued_prune, ← h.queue user]
    exact HubState.queueOf_pruneExpiredMessages
  disjoint user c r hr := by
    have hempty := h.disjoint user c r hr
    refine HubState.queueOf_pruneExpiredMessages.trans ?_
    rw [hempty, List.filter_nil]
  registered := h.registered
  distinct := h.distinct
  created := h.created
  pending r hr := (h.pending r hr).trans handed_prune.symm
  replayed r hr := by
    rw [handed_prune, taken_prune]
    exact h.replayed r hr
  replays replay hreplay := by
    rw [taken_prune]
    exact h.replays replay hreplay
  nodup := h.nodup
  closed := h.closed
  faithful sent hsent := by
    obtain ⟨before, hbefore, rfl⟩ := List.mem_map.1 hsent
    exact (h.faithful before hbefore).prune h.clock
  sorted := by
    have hconnects (sent : Sent U E) : (sent.prune hub.clock).connects = sent.connects := by
      unfold Sent.prune
      split_ifs <;> rfl
    exact List.pairwise_map.2 (h.sorted.imp fun hle => by rwa [hconnects, hconnects])
  clock := le_refl hub.clock

theorem Hub.Conserves.lt_created (h : hub.Conserves ttl ledger) {c : C} {r : Nat}
    (hr : hub.state.registered user c = some r) : r < hub.created := by
  rw [h.created]
  exact (List.getElem?_eq_some_iff.1 (h.registered user c r hr)).1

theorem Hub.Conserves.attach (h : hub.Conserves ttl ledger) :
    (hub.attach user connectionId).2.Conserves ttl (ledger.connect user) := by
  have hregistered (u : U) (c : C) : (hub.attach user connectionId).2.state.registered u c =
      if u = user ∧ c = connectionId then some hub.created else hub.state.registered u c :=
    HubState.registered_insert
  have hqueue (u : U) : (hub.attach user connectionId).2.state.queueOf u =
      if u = user then [] else hub.state.queueOf u := HubState.queueOf_takeQueuedMessages
  have hchannel {r : Nat} (hr : r ≠ hub.created) :
      (hub.attach user connectionId).2.channels r = hub.channels r := Function.update_of_ne hr _ _
  have hself : (hub.attach user connectionId).2.channels hub.created = ⟨[], true⟩ :=
    Function.update_self _ _ _
  have htaken {r : Nat} (hr : r ≠ hub.created) :
      (ledger.connect user).taken r = ledger.taken r := by
    rw [taken_connect h.faithful, if_neg (h.created ▸ hr)]
  have hpending {r : Nat} (hr : hub.Pending r) : r ≠ hub.created := by
    obtain ⟨replay, hmem, rfl⟩ := hr
    exact (h.replays replay hmem).1.ne
  refine ⟨(h.tidy.insert _).takeQueuedMessages, fun u => ?_, fun u c r hr => ?_,
    fun u c r hr => ?_, fun u c c' r hr hr' => ?_, ?_, fun r hr => ?_, fun r hr => ?_,
    fun replay hmem => ?_, ?_, fun r hr => ?_, fun sent hsent => ?_, ?_, h.clock⟩
  · rw [hqueue, queued_connect, h.queue]
  · rw [hqueue]
    split_ifs with hu
    · rfl
    · rw [hregistered, if_neg fun hnew => hu hnew.1] at hr
      exact h.disjoint u c r hr
  · rw [hregistered] at hr
    split_ifs at hr with hnew
    · obtain rfl := Option.some.inj hr
      simp [Ledger.connect, h.created, hnew.1]
    · exact owners_connect (h.registered u c r hr) user
  · rw [hregistered] at hr hr'
    split_ifs at hr hr' with hnew hnew' hnew'
    · rw [hnew.2, hnew'.2]
    · exact absurd (Option.some.inj hr).symm (h.lt_created hr').ne
    · exact absurd (Option.some.inj hr').symm (h.lt_created hr).ne
    · exact h.distinct u c c' r hr hr'
  · simp [Hub.attach, Ledger.connect, h.created]
  · rw [handed_connect]
    obtain ⟨replay, hmem, rfl⟩ := hr
    rcases List.mem_cons.1 hmem with rfl | hmem
    · rw [hself, handed_eq_nil h.faithful h.created.ge]
    · have hold : hub.Pending replay.sender := ⟨replay, hmem, rfl⟩
      rw [hchannel (hpending hold)]
      exact h.pending _ hold
  · have hne : r ≠ hub.created := fun heq => hr ⟨_, List.mem_cons_self, heq.symm⟩
    rw [handed_connect, htaken hne, hchannel hne]
    refine h.replayed r fun hold => hr ?_
    obtain ⟨replay, hmem, heq⟩ := hold
    exact ⟨replay, List.mem_cons_of_mem _ hmem, heq⟩
  · rcases List.mem_cons.1 hmem with rfl | hmem
    · refine ⟨Nat.lt_succ_self _, by rw [hself], ?_⟩
      rw [taken_connect h.faithful, if_pos h.created, ← h.queue]
      rfl
    · obtain ⟨hlt, hopen, hbacklog⟩ := h.replays replay hmem
      rw [htaken hlt.ne, hchannel hlt.ne]
      exact ⟨hlt.trans (Nat.lt_succ_self _), hopen, hbacklog⟩
  · refine List.nodup_cons.2 ⟨fun hmem => ?_, h.nodup⟩
    obtain ⟨replay, hreplay, heq⟩ := List.mem_map.1 hmem
    exact (h.replays replay hreplay).1.ne heq
  · have hlt : hub.created < r := hr
    rw [hchannel hlt.ne']
    exact h.closed r hlt.le
  · obtain ⟨before, hbefore, rfl⟩ := List.mem_map.1 hsent
    exact (h.faithful before hbefore).connect
  · have hconnects (sent : Sent U E) :
        (sent.take user ledger.owners.length).connects = sent.connects := by
      unfold Sent.take
      split_ifs <;> rfl
    exact List.pairwise_map.2 (h.sorted.imp fun hle => by rwa [hconnects, hconnects])

theorem Hub.Conserves.detach (h : hub.Conserves ttl ledger) :
    (hub.detach user connectionId).2.Conserves ttl ledger := by
  unfold Hub.detach
  cases hconnections : hub.state.connections.get? user with
  | none => exact h
  | some userConnections =>
      have hregistered {u : U} {c : C} {r : Nat}
          (hr : (hub.state.setConnections user
            (userConnections.erase connectionId)).registered u c = some r) :
          hub.state.registered u c = some r := by
        rw [HubState.registered_setConnections] at hr
        split_ifs at hr with hu
        · rw [OrdMap.get?_erase] at hr
          split_ifs at hr
          rw [HubState.registered, hu, hconnections]
          exact hr
        · exact hr
      exact ⟨h.tidy.setConnections, h.queue, fun u c r hr => h.disjoint u c r (hregistered hr),
        fun u c r hr => h.registered u c r (hregistered hr),
        fun u c c' r hr hr' => h.distinct u c c' r (hregistered hr) (hregistered hr'), h.created,
        h.pending, h.replayed, h.replays, h.nodup, h.closed, h.faithful, h.sorted, h.clock⟩

theorem Hub.Conserves.dropReceiver (h : hub.Conserves ttl ledger) (receiver : Nat) :
    (hub.dropReceiver receiver).2.Conserves ttl ledger := by
  unfold Hub.dropReceiver
  split_ifs with hpending
  · exact h
  · have hreceived (r : Nat) : (Function.update hub.channels receiver
        { hub.channels receiver with isOpen := false } r).received =
        (hub.channels r).received := by
      by_cases hr : r = receiver
      · subst hr
        rw [Function.update_self]
      · rw [Function.update_of_ne hr]
    refine ⟨h.tidy, h.queue, h.disjoint, h.registered, h.distinct, h.created,
      fun r hr => (hreceived r).trans (h.pending r hr), fun r hr => ?_, fun replay hmem => ?_,
      h.nodup, fun r hr => ?_, h.faithful, h.sorted, h.clock⟩
    · rw [hreceived]
      exact h.replayed r hr
    · have hne : replay.sender ≠ receiver := fun heq => hpending ⟨replay, hmem, heq⟩
      simp only [Function.update_of_ne hne]
      exact h.replays replay hmem
    · by_cases hr' : r = receiver
      · subst hr'
        simp only [Function.update_self]
      · simp only [Function.update_of_ne hr']
        exact h.closed r hr

theorem replayTo_of_isOpen (backlog : List E) {channels : Nat → Channel E} {sender : Nat}
    (hopen : (channels sender).isOpen = true) : Hub.replayTo channels sender backlog =
      Function.update channels sender ⟨(channels sender).received ++ backlog, true⟩ := by
  induction backlog generalizing channels with
  | nil =>
      rw [List.append_nil, ← hopen]
      exact (Function.update_eq_self sender channels).symm
  | cons event rest ih =>
      have hpush : (channels sender).push event =
          ⟨(channels sender).received ++ [event], true⟩ := by
        rw [Channel.push, if_pos hopen, hopen]
      rw [Hub.replayTo, if_pos hopen, ih (by rw [Function.update_self, hpush]),
        Function.update_self, Function.update_idem, hpush, List.append_assoc, List.singleton_append]

theorem Hub.Conserves.replay (h : hub.Conserves ttl ledger) (sender : Nat) :
    (hub.replay sender).2.Conserves ttl ledger := by
  unfold Hub.replay
  cases hfind : hub.replays.find? fun replay => replay.sender = sender with
  | none => exact h
  | some replay =>
      have hmem : replay ∈ hub.replays := List.mem_of_find?_eq_some hfind
      obtain rfl : replay.sender = sender := by simpa using List.find?_some hfind
      obtain ⟨hlt, hopen, hbacklog⟩ := h.replays replay hmem
      simp only [replayTo_of_isOpen _ hopen]
      have hisOpen (r : Nat) : (Function.update hub.channels replay.sender
          ⟨(hub.channels replay.sender).received ++ replay.backlog, true⟩ r).isOpen =
          (hub.channels r).isOpen := by
        by_cases hr : r = replay.sender
        · subst hr
          rw [Function.update_self, hopen]
        · rw [Function.update_of_ne hr]
      refine ⟨h.tidy, h.queue, h.disjoint, h.registered, h.distinct, h.created, fun r hr => ?_,
        fun r hr => ?_, fun other hother => ?_, ?_, fun r hr => ?_, h.faithful, h.sorted, h.clock⟩
      · obtain ⟨other, hother, rfl⟩ := hr
        obtain ⟨hother, hne⟩ := List.mem_filter.1 hother
        simp only [Function.update_of_ne (by simpa using hne)]
        exact h.pending _ ⟨other, hother, rfl⟩
      · by_cases hr' : r = replay.sender
        · subst hr'
          refine ⟨ledger.handed replay.sender, [], (List.append_nil _).symm, ?_⟩
          simp only [Function.update_self]
          rw [h.pending _ ⟨replay, hmem, rfl⟩, hbacklog, List.append_nil]
        · simp only [Function.update_of_ne hr']
          refine h.replayed r fun hpending => hr ?_
          obtain ⟨other, hother, rfl⟩ := hpending
          exact ⟨other, List.mem_filter.2 ⟨hother, by simpa using hr'⟩, rfl⟩
      · rw [hisOpen]
        exact h.replays other (List.mem_filter.1 hother).1
      · exact h.nodup.sublist (List.filter_sublist.map _)
      · rw [hisOpen]
        exact h.closed r hr

theorem deliver_eq (ttl : Nat) (hub : Hub U C E) (user : U) (event : E) :
    hub.deliver ttl user event =
    let receivers := hub.state.receivers hub.channels user
    let delivered := hub.state.deliverToActiveConnections hub.channels user event
    if receivers = [] then (.delivery ⟨0, 1⟩, { hub with
      state := delivered.2.1.queueMessage user event (hub.clock + ttl)
      channels := delivered.2.2 })
    else (.delivery ⟨receivers.length, 0⟩, { hub with
      state := delivered.2.1
      channels := delivered.2.2 }) := by
  have hlength : (hub.state.deliverToActiveConnections hub.channels user event).1 =
      (hub.state.receivers hub.channels user).length := HubState.fst_deliverToActiveConnections
  simp only [Hub.deliver, hlength, List.length_eq_zero_iff]

theorem Hub.Conserves.deliver (h : hub.Conserves ttl ledger)
    (hclock : ledger.lastPrune = hub.clock) : (hub.deliver ttl user event).2.Conserves ttl
      (ledger.send ttl user event (hub.state.receivers hub.channels user)) := by
  have hnodup : (hub.state.receivers hub.channels user).Nodup :=
    HubState.nodup_receivers fun c c' r => h.distinct user c c' r
  have howners : ∀ r ∈ hub.state.receivers hub.channels user, ledger.owners[r]? = some user := by
    intro r hr
    obtain ⟨⟨c, hc⟩, -⟩ := HubState.mem_receivers.1 hr
    exact h.registered user c r hc
  have hreceived := HubState.received_deliverToActiveConnections hnodup event
  have hisOpen := HubState.isOpen_deliverToActiveConnections hnodup event
  have hregistered {u : U} {c : C} {r : Nat} (hr : (hub.state.deliverToActiveConnections
      hub.channels user event).2.1.registered u c = some r) :=
    HubState.registered_of_deliverToActiveConnections hr
  have hpending (r : Nat) (hr : hub.Pending r) : ((hub.state.deliverToActiveConnections
      hub.channels user event).2.2 r).received =
        (ledger.send ttl user event (hub.state.receivers hub.channels user)).handed r := by
    rw [hreceived, handed_send, h.pending r hr]
  have hreplayed (r : Nat) (hr : ¬ hub.Pending r) : ∃ before after,
      (ledger.send ttl user event (hub.state.receivers hub.channels user)).handed r =
        before ++ after ∧ ((hub.state.deliverToActiveConnections hub.channels user
          event).2.2 r).received = before ++ ledger.taken r ++ after := by
    obtain ⟨before, after, hhanded, hbefore⟩ := h.replayed r hr
    rw [hreceived, handed_send]
    split_ifs
    · exact ⟨before, after ++ [event], by rw [hhanded, List.append_assoc],
        by rw [hbefore, List.append_assoc]⟩
    · exact ⟨before, after, hhanded, hbefore⟩
  have hreplays : ∀ replay ∈ hub.replays, replay.sender < hub.created ∧
      ((hub.state.deliverToActiveConnections hub.channels user event).2.2
        replay.sender).isOpen = true ∧ replay.backlog = ledger.taken replay.sender := by
    intro replay hmem
    rw [hisOpen]
    exact h.replays replay hmem
  have hclosed (r : Nat) (hr : hub.created ≤ r) : ((hub.state.deliverToActiveConnections
      hub.channels user event).2.2 r).isOpen = false := (hisOpen r).trans (h.closed r hr)
  have hsorted : (ledger.send ttl user event
      (hub.state.receivers hub.channels user)).entries.Pairwise
        fun a b => a.connects ≤ b.connects := by
    refine List.pairwise_append.2 ⟨h.sorted, List.pairwise_singleton _ _, ?_⟩
    intro sent hsent other hother
    obtain rfl := List.mem_singleton.1 hother
    exact (h.faithful sent hsent).connects
  have hfaithful := faithful_send event hnodup howners h.faithful
  rw [deliver_eq]
  by_cases hempty : hub.state.receivers hub.channels user = []
  · simp only [if_pos hempty]
    refine ⟨h.tidy.deliverToActiveConnections.queueMessage, fun u => ?_, fun u c r hr => ?_,
      fun u c r hr => h.registered u c r (hregistered hr).1,
      fun u c c' r hr hr' => h.distinct u c c' r (hregistered hr).1 (hregistered hr').1, h.created,
      hpending, fun r hr => ?_, fun replay hmem => ?_, h.nodup, hclosed, hfaithful, hsorted,
      h.clock⟩
    · rw [HubState.queueOf_queueMessage, HubState.queueOf_deliverToActiveConnections,
        HubState.queueOf_deliverToActiveConnections, queued_send, h.queue, h.queue, hclock]
      by_cases hu : u = user
      · rw [if_pos hu, if_pos ⟨hu, hempty⟩, hu]
      · rw [if_neg hu, if_neg fun hboth => hu hboth.1]
    · obtain ⟨hget, hopen⟩ := hregistered hr
      have hu : u ≠ user := by
        rintro rfl
        have hmem := HubState.mem_receivers.2 ⟨⟨c, hget⟩, hopen rfl⟩
        rw [hempty] at hmem
        cases hmem
      rw [HubState.queueOf_queueMessage, if_neg hu, HubState.queueOf_deliverToActiveConnections]
      exact h.disjoint u c r hget
    · rw [taken_send]
      exact hreplayed r hr
    · rw [taken_send]
      exact hreplays replay hmem
  · simp only [if_neg hempty]
    refine ⟨h.tidy.deliverToActiveConnections, fun u => ?_, fun u c r hr => ?_,
      fun u c r hr => h.registered u c r (hregistered hr).1,
      fun u c c' r hr hr' => h.distinct u c c' r (hregistered hr).1 (hregistered hr').1, h.created,
      hpending, fun r hr => ?_, fun replay hmem => ?_, h.nodup, hclosed, hfaithful, hsorted,
      h.clock⟩
    · rw [HubState.queueOf_deliverToActiveConnections, queued_send,
        if_neg fun hboth => hempty hboth.2, h.queue]
    · rw [HubState.queueOf_deliverToActiveConnections]
      exact h.disjoint u c r (hregistered hr).1
    · rw [taken_send]
      exact hreplayed r hr
    · rw [taken_send]
      exact hreplays replay hmem

theorem Hub.Conserves.step (h : hub.Conserves ttl ledger) (call : Nat × HubCall U C E) :
    (hub.step ttl call).2.Conserves ttl (ledger.step ttl hub call) := by
  obtain ⟨elapsed, call⟩ := call
  have hadvance := h.advance elapsed
  cases call with
  | connect user connectionId => exact hadvance.prune.attach
  | replay sender => exact hadvance.replay sender
  | disconnect user connectionId => exact hadvance.prune.detach
  | send user event => exact hadvance.prune.deliver rfl
  | prune => exact hadvance.prune
  | dropReceiver receiver => exact hadvance.dropReceiver receiver

theorem Hub.conserves_new : (Hub.new : Hub U C E).Conserves ttl Ledger.new := by
  have hnone : ∀ (user : U) (c : C), (Hub.new : Hub U C E).state.registered user c = none :=
    fun _ _ => rfl
  exact ⟨⟨fun _ _ hget => (nomatch hget), fun _ hget => (nomatch hget)⟩, fun _ => rfl,
    fun _ _ _ _ => rfl, fun _ _ _ hr => (nomatch hr), fun _ _ _ _ hr => (nomatch hr), rfl,
    fun _ _ => rfl, fun _ _ => ⟨[], [], rfl, rfl⟩, fun _ hmem => (nomatch hmem), .nil,
    fun _ _ => rfl, fun _ hmem => (nomatch hmem), .nil, le_refl 0⟩

end Steps

/-- The event that a call has sent, with what the send has reported. -/
def sentOf : (Nat × HubCall U C E) × HubReply C → Option (U × E × MessagingDelivery)
  | ((_, .send user event), .delivery delivery) => some (user, event, delivery)
  | _ => none

def connectedOf : (Nat × HubCall U C E) × HubReply C → Option U
  | ((_, .connect user _), _) => some user
  | _ => none

def Ledger.after (ttl : Nat) (calls : List (Nat × HubCall U C E)) : Ledger U E :=
  (runCalls (observed (Hub.step ttl) (Ledger.step ttl)) (.new, .new) calls).2.2

def Ledger.reports (ledger : Ledger U E) : List (U × E × MessagingDelivery) :=
  ledger.entries.map fun sent => (sent.user, sent.event, sent.delivery)

/-- The ledger has an entry for every event sent, as it was reported, and the user of every
connection made. -/
structure Ledger.Records (ledger : Ledger U E)
    (history : List ((Nat × HubCall U C E) × HubReply C)) : Prop where
  sent : history.filterMap sentOf = ledger.reports
  connected : history.filterMap connectedOf = ledger.owners

section Runs

variable {ttl now : Nat} {user : U} {event : E} {hub : Hub U C E} {ledger : Ledger U E}
  {history : List ((Nat × HubCall U C E) × HubReply C)}

omit [LinearOrder U] in
@[simp] theorem reports_prune : (ledger.prune now).reports = ledger.reports := by
  unfold Ledger.reports Ledger.prune
  rw [List.map_map]
  refine List.map_congr_left fun sent _ => ?_
  rw [Function.comp_apply, Sent.prune]
  split_ifs with hqueued
  · simp [Sent.delivery, hqueued.1]
  · rfl

@[simp] theorem reports_connect : (ledger.connect user).reports = ledger.reports := by
  unfold Ledger.reports Ledger.connect
  rw [List.map_map]
  refine List.map_congr_left fun sent _ => ?_
  rw [Function.comp_apply, Sent.take]
  split_ifs with hqueued
  · simp [Sent.delivery, hqueued.1]
  · rfl

omit [LinearOrder U] in
theorem reports_send (receivers : List Nat) :
    (ledger.send ttl user event receivers).reports = ledger.reports ++
      [(user, event, if receivers = [] then ⟨0, 1⟩ else ⟨receivers.length, 0⟩)] := by
  unfold Ledger.reports Ledger.send
  rw [List.map_append]
  split_ifs <;> rfl

theorem fst_step_send (elapsed : Nat) :
    (hub.step ttl (elapsed, .send user event)).1 =
      .delivery (if hub.state.receivers hub.channels user = [] then ⟨0, 1⟩
        else ⟨(hub.state.receivers hub.channels user).length, 0⟩) := by
  have hdeliver := deliver_eq ttl (Hub.pruned { hub with clock := hub.clock + elapsed }) user event
  refine (congrArg Prod.fst hdeliver).trans ?_
  change (if hub.state.receivers hub.channels user = [] then _ else _ : HubReply C × Hub U C E).1 = _
  split_ifs <;> rfl

theorem Ledger.Records.step (h : ledger.Records history) (call : Nat × HubCall U C E) :
    (ledger.step ttl hub call).Records (history ++ [(call, (hub.step ttl call).1)]) := by
  obtain ⟨elapsed, call⟩ := call
  have hother {ledger' : Ledger U E} {call : Nat × HubCall U C E} {reply : HubReply C}
      (hsent : sentOf (call, reply) = none) (hconnected : connectedOf (call, reply) = none)
      (hreports : ledger'.reports = ledger.reports) (howners : ledger'.owners = ledger.owners) :
      ledger'.Records (history ++ [(call, reply)]) := by
    refine ⟨?_, ?_⟩
    · rw [List.filterMap_append, List.filterMap_cons_none hsent, List.filterMap_nil,
        List.append_nil, h.sent, hreports]
    · rw [List.filterMap_append, List.filterMap_cons_none hconnected, List.filterMap_nil,
        List.append_nil, h.connected, howners]
  cases call with
  | connect user connectionId =>
      refine ⟨?_, ?_⟩
      · rw [List.filterMap_append, h.sent]
        exact (List.append_nil _).trans (reports_connect.trans reports_prune).symm
      · rw [List.filterMap_append, h.connected]
        rfl
  | replay sender =>
      refine hother ?_ rfl rfl rfl
      rfl
  | disconnect user connectionId => exact hother rfl rfl reports_prune rfl
  | send user event =>
      refine ⟨?_, ?_⟩
      · rw [List.filterMap_append, h.sent, Ledger.step, reports_send, reports_prune]
        refine congrArg (ledger.reports ++ ·) ?_
        rw [fst_step_send]
        rfl
      · rw [List.filterMap_append, h.connected]
        exact List.append_nil _
  | prune => exact hother rfl rfl reports_prune rfl
  | dropReceiver receiver => exact hother rfl rfl rfl rfl

end Runs

/-- Whatever is called, the state of the hub is what the ledger says, and the ledger has every
event sent, as its send has reported it. -/
theorem hub_conserves (ttl : Nat) (calls : List (Nat × HubCall U C E)) :
    (runCalls (Hub.step ttl) Hub.new calls).2.Conserves ttl (Ledger.after ttl calls) ∧
      (Ledger.after ttl calls).Records (runCalls (Hub.step ttl) Hub.new calls).1 := by
  have hrun := runCalls_invariant (observed (Hub.step ttl) (Ledger.step ttl))
    (fun history (s : Hub U C E × Ledger U E) => s.1.Conserves ttl s.2 ∧ s.2.Records history)
    (fun _ _ => True) (fun history s call _ hinv => ⟨hinv.1.step call, hinv.2.step call⟩)
    ⟨Hub.conserves_new, rfl, rfl⟩ (eachCall_of_forall (fun _ _ => trivial) (.new, .new) calls)
  obtain ⟨hhistory, hstate⟩ := runCalls_observed (Hub.step ttl) (Ledger.step ttl)
    ((Hub.new, Ledger.new) : Hub U C E × Ledger U E) calls
  rw [hhistory, hstate] at hrun
  exact hrun

/-- Without a time to live, an event is queued that has expired at the prune of its own send. -/
theorem queued_of_no_ttl :
    let calls : List (Nat × HubCall Nat Nat Nat) := [(5, .send 0 7)]
    let hub := (runCalls (Hub.step 0) Hub.new calls).2
    hub.state.queueOf 0 = [⟨7, 5⟩] ∧ hub.state.registered 0 0 = none ∧
      (Ledger.after 0 calls).entries.map (·.fate) = [.queued] ∧
      ¬ (Ledger.after 0 calls).lastPrune < 5 := by
  refine ⟨rfl, rfl, by decide, by decide⟩

end Ledger

end Evobase
