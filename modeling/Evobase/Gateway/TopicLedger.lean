import Evobase.Gateway.Topic

/-!
# What becomes of the published messages

A ledger has an entry for every message published, in the order of the publishes, with its fate.
The state of the hub is what the ledger says (`TopicHub.Conserves`), in every run. One of the fates
is to be lost: the send of a publish that has counted receivers finds none. Nothing is lost in a
run exactly when no send does that (`losesNothing_iff`).

A receiver that lags does not get the messages that have been evicted. The lemmas about a send and
about a subscription are stated one for each part of the invariant, since the races of the code
are between these two.
-/

namespace Evobase

open Foundation

inductive TopicFate where
  | sending
  | handed (receivers : List Nat)
  | queued
  | returned (receiver : Nat)
  | evicted
  | lost
deriving DecidableEq

def TopicFate.isHanded : TopicFate → Bool
  | .handed _ => true
  | _ => false

/-- What becomes of a message that is sent to these receivers. -/
def TopicFate.sentTo (live : List Nat) : TopicFate := if live = [] then .lost else .handed live

/-- A message published, with the number of subscriptions made before. -/
structure Published (T M : Type) where
  topic : T
  message : M
  subscriptions : Nat
  fate : TopicFate

/-- The messages published, and the topics of the subscriptions made. -/
structure TopicLedger (T M : Type) where
  entries : List (Published T M)
  subscriptions : List T

section Messages

variable {T M : Type}

def Published.finish (live : List Nat) (p : Published T M) : Published T M :=
  if p.fate = .sending then { p with fate := .sentTo live } else p

namespace TopicLedger

def new : TopicLedger T M := ⟨[], []⟩

def messages (ledger : TopicLedger T M) (P : Published T M → Bool) : List M :=
  (ledger.entries.filter P).map (·.message)

def send (live : List Nat) (ledger : TopicLedger T M) : TopicLedger T M :=
  { ledger with entries := ledger.entries.map (Published.finish live) }

end TopicLedger

variable {entries : List (Published T M)} {p : Published T M} {P Q : Published T M → Bool}
  {live : List Nat} {subscriptions subscriptions' : List T}

theorem messages_cons : (⟨p :: entries, subscriptions⟩ : TopicLedger T M).messages P =
    (if P p = true then [p.message] else []) ++
      (⟨entries, subscriptions⟩ : TopicLedger T M).messages P := by
  cases hp : P p <;> simp [TopicLedger.messages, hp]

theorem messages_append {more : List (Published T M)} :
    (⟨entries ++ more, subscriptions⟩ : TopicLedger T M).messages P =
      (⟨entries, subscriptions⟩ : TopicLedger T M).messages P ++
        (⟨more, subscriptions⟩ : TopicLedger T M).messages P := by
  simp [TopicLedger.messages]

theorem messages_singleton : (⟨[p], subscriptions⟩ : TopicLedger T M).messages P =
    if P p = true then [p.message] else [] := by
  cases hp : P p <;> simp [TopicLedger.messages, hp]

theorem messages_map {f : Published T M → Published T M}
    (hmessage : ∀ p, (f p).message = p.message) (h : ∀ p ∈ entries, P (f p) = Q p) :
    (⟨entries.map f, subscriptions⟩ : TopicLedger T M).messages P =
      (⟨entries, subscriptions'⟩ : TopicLedger T M).messages Q := by
  have hfilter : entries.filter (P ∘ f) = entries.filter Q := List.filter_congr h
  simp only [TopicLedger.messages, List.filter_map, List.map_map, hfilter]
  exact List.map_congr_left fun p _ => hmessage p

theorem messages_congr (h : ∀ p ∈ entries, P p = Q p) :
    (⟨entries, subscriptions⟩ : TopicLedger T M).messages P =
      (⟨entries, subscriptions'⟩ : TopicLedger T M).messages Q := by
  simp only [TopicLedger.messages, List.filter_congr h]

end Messages

section Ledger

variable {T M : Type} [LinearOrder T]

namespace Published

def queuedOn (topic : T) (p : Published T M) : Bool := p.topic = topic && p.fate = .queued

def handedOn (topic : T) (p : Published T M) : Bool := p.topic = topic && p.fate.isHanded

def returnedTo (receiver : Nat) (p : Published T M) : Bool := p.fate = .returned receiver

def handedBefore (receiver : Nat) (topic : T) (p : Published T M) : Bool :=
  p.handedOn topic && decide (p.subscriptions ≤ receiver)

def handedAfter (receiver : Nat) (topic : T) (p : Published T M) : Bool :=
  p.handedOn topic && decide (receiver < p.subscriptions)

def take (topic : T) (receiver : Nat) (p : Published T M) : Published T M :=
  if p.queuedOn topic = true then { p with fate := .returned receiver } else p

end Published

/-- The first queued message of the topic is evicted. -/
def evictOldest (topic : T) : List (Published T M) → List (Published T M)
  | [] => []
  | p :: rest =>
      if p.queuedOn topic = true then { p with fate := .evicted } :: rest
      else p :: evictOldest topic rest

namespace TopicLedger

/-- A message is queued when there are no receivers, and the oldest one evicted when the queue is
full; otherwise it is going to be sent. -/
def publish (topic : T) (message : M) (live : List Nat) (ledger : TopicLedger T M) :
    TopicLedger T M :=
  if live = [] then
    { ledger with entries :=
        (if topicQueueCapacity ≤ (ledger.messages (Published.queuedOn topic)).length then
          evictOldest topic ledger.entries else ledger.entries) ++
        [⟨topic, message, ledger.subscriptions.length, .queued⟩] }
  else
    { ledger with entries := ledger.entries ++
        [⟨topic, message, ledger.subscriptions.length, .sending⟩] }

def subscribe (topic : T) (ledger : TopicLedger T M) : TopicLedger T M where
  entries := ledger.entries.map (Published.take topic ledger.subscriptions.length)
  subscriptions := ledger.subscriptions ++ [topic]

/-- What a step of the hub does to the messages. -/
def step (hub : TopicHub T M) (ledger : TopicLedger T M) : TopicAction T M → TopicLedger T M
  | .publish topic message => ledger.publish topic message (hub.live topic)
  | .send =>
      match hub.publishing with
      | some (topic, _) => ledger.send (hub.live topic)
      | none => ledger
  | .subscribe topic => ledger.subscribe topic
  | .poll _ | .dropReceiver _ => ledger

end TopicLedger

/-- The fate of a message is one that it can have: it was handed to receivers of its topic that
were there before it was published, or returned by a later subscription to its topic. -/
structure Published.Faithful (ledger : TopicLedger T M) (p : Published T M) : Prop where
  subscriptions : p.subscriptions ≤ ledger.subscriptions.length
  handed : ∀ receivers, p.fate = .handed receivers → receivers ≠ [] ∧ receivers.Nodup ∧
    ∀ r ∈ receivers, r < p.subscriptions ∧ ledger.subscriptions[r]? = some p.topic
  returned : ∀ r, p.fate = .returned r →
    p.subscriptions ≤ r ∧ ledger.subscriptions[r]? = some p.topic

/-- A subscriber yields what its subscription has returned and then what it reads of the messages
handed out since. While it is alive, that is everything published since. -/
structure TopicLedger.Follows (ledger : TopicLedger T M) (r : Nat) (receiver : TopicReceiver T M) :
    Prop where
  reads : ∃ got, receiver.yielded ++ receiver.backlog =
      ledger.messages (Published.returnedTo r) ++ got ∧
    Broadcast.Reads topicChannelCapacity (ledger.messages (Published.handedOn receiver.topic))
      (ledger.messages (Published.handedBefore r receiver.topic)).length receiver.next got ∧
    (receiver.backlog ≠ [] → got = [])
  later : receiver.isOpen = true → ∀ p ∈ ledger.entries, p.topic = receiver.topic →
    r < p.subscriptions → p.fate = .sending ∨ ∃ receivers, p.fate = .handed receivers ∧ r ∈ receivers

/-- The state of the hub is what the ledger says. -/
structure TopicHub.Conserves (hub : TopicHub T M) (ledger : TopicLedger T M) : Prop where
  queue : ∀ topic, (hub.state topic).queuedMessages = ledger.messages (Published.queuedOn topic)
  bound : ∀ topic, (hub.state topic).queuedMessages.length ≤ topicQueueCapacity
  channel : ∀ topic, (hub.state topic).sender.Holds topicChannelCapacity
    (ledger.messages (Published.handedOn topic))
  subscriptions : hub.receivers.map (·.topic) = ledger.subscriptions
  sending : ∃ done, ledger.entries = done ++ (hub.publishing.map fun publishing =>
      (⟨publishing.1, publishing.2, ledger.subscriptions.length, .sending⟩ :
        Published T M)).toList ∧ ∀ p ∈ done, p.fate ≠ .sending
  sorted : ledger.entries.Pairwise fun a b => a.subscriptions ≤ b.subscriptions
  faithful : ∀ p ∈ ledger.entries, p.Faithful ledger
  follows : ∀ r receiver, hub.receivers[r]? = some receiver → ledger.Follows r receiver

section Entries

variable {ledger : TopicLedger T M} {entries : List (Published T M)} {p : Published T M}
  {P : Published T M → Bool} {topic t : T} {message : M} {r : Nat} {live : List Nat}
  {subscriptions : List T}

theorem message_take (p : Published T M) : (p.take topic r).message = p.message := by
  unfold Published.take
  split_ifs <;> rfl

theorem queuedOn_eq_true : p.queuedOn topic = true ↔ p.topic = topic ∧ p.fate = .queued := by
  simp [Published.queuedOn]

theorem handedOn_eq_true :
    p.handedOn topic = true ↔ p.topic = topic ∧ p.fate.isHanded = true := by
  simp [Published.handedOn]

theorem messages_evictOldest_queued :
    (⟨evictOldest topic entries, subscriptions⟩ : TopicLedger T M).messages (Published.queuedOn t) =
      if t = topic then ((⟨entries, subscriptions⟩ : TopicLedger T M).messages
        (Published.queuedOn t)).tail
      else (⟨entries, subscriptions⟩ : TopicLedger T M).messages (Published.queuedOn t) := by
  induction entries with
  | nil => split_ifs <;> rfl
  | cons p rest ih =>
      by_cases hp : p.queuedOn topic = true
      · have hevicted : ({ p with fate := .evicted } : Published T M).queuedOn t = false := by
          simp [Published.queuedOn]
        rw [evictOldest, if_pos hp, messages_cons, hevicted, messages_cons]
        by_cases ht : t = topic
        · subst ht
          simp [hp]
        · have hother : p.queuedOn t = false := by
            rw [queuedOn_eq_true] at hp
            simp [Published.queuedOn, hp.1, Ne.symm ht]
          simp [ht, hother]
      · rw [evictOldest, if_neg hp, messages_cons, ih, messages_cons]
        by_cases ht : t = topic
        · subst ht
          simp [hp]
        · simp [ht]

theorem messages_evictOldest (h : ∀ p : Published T M, p.queuedOn topic = true →
      P p = false ∧ P { p with fate := .evicted } = false) :
    (⟨evictOldest topic entries, subscriptions⟩ : TopicLedger T M).messages P =
      (⟨entries, subscriptions⟩ : TopicLedger T M).messages P := by
  induction entries with
  | nil => rfl
  | cons p rest ih =>
      by_cases hp : p.queuedOn topic = true
      · obtain ⟨hqueued, hevicted⟩ := h p hp
        rw [evictOldest, if_pos hp, messages_cons, messages_cons, hqueued, hevicted]
      · rw [evictOldest, if_neg hp, messages_cons, ih, messages_cons]

theorem mem_evictOldest (h : p ∈ evictOldest topic entries) :
    p ∈ entries ∨ ∃ q ∈ entries, q.fate = .queued ∧ p = { q with fate := .evicted } := by
  induction entries with
  | nil => cases h
  | cons q rest ih =>
      rw [evictOldest] at h
      split_ifs at h with hq
      · rcases List.mem_cons.1 h with rfl | hrest
        · exact .inr ⟨q, List.mem_cons_self, (queuedOn_eq_true.1 hq).2, rfl⟩
        · exact .inl (List.mem_cons_of_mem _ hrest)
      · rcases List.mem_cons.1 h with rfl | hrest
        · exact .inl List.mem_cons_self
        · exact (ih hrest).imp (List.mem_cons_of_mem _) fun ⟨s, hs, hfate⟩ =>
            ⟨s, List.mem_cons_of_mem _ hs, hfate⟩

theorem map_subscriptions_evictOldest (topic : T) (entries : List (Published T M)) :
    (evictOldest topic entries).map (·.subscriptions) = entries.map (·.subscriptions) := by
  induction entries with
  | nil => rfl
  | cons p rest ih =>
      rw [evictOldest]
      split_ifs
      · rfl
      · rw [List.map_cons, ih, List.map_cons]

end Entries

section Steps

variable {hub : TopicHub T M} {ledger ledger' : TopicLedger T M} {p : Published T M}
  {P : Published T M → Bool} {topic t : T} {message : M} {r : Nat} {live : List Nat}
  {receiver : TopicReceiver T M} {done : List (Published T M)}

theorem subscriptions_take (p : Published T M) : (p.take topic r).subscriptions = p.subscriptions := by
  unfold Published.take
  split_ifs <;> rfl

theorem topic_take (p : Published T M) : (p.take topic r).topic = p.topic := by
  unfold Published.take
  split_ifs <;> rfl

theorem take_cases (topic : T) (r : Nat) (p : Published T M) :
    p.take topic r = p ∨ p.queuedOn topic = true ∧ p.take topic r = { p with fate := .returned r } := by
  unfold Published.take
  split_ifs with hqueued
  · exact .inr ⟨hqueued, rfl⟩
  · exact .inl rfl

theorem conserves_new : (.new : TopicHub T M).Conserves .new where
  queue topic := by simp [TopicHub.state, TopicHub.new, OrdMap.get?_empty, TopicState.new,
    TopicLedger.messages, TopicLedger.new]
  bound topic := by simp [TopicHub.state, TopicHub.new, OrdMap.get?_empty, TopicState.new]
  channel topic := by
    simpa [TopicHub.state, TopicHub.new, OrdMap.get?_empty, TopicState.new, TopicLedger.messages,
      TopicLedger.new] using Broadcast.holds_new topicChannelCapacity
  subscriptions := rfl
  sending := ⟨[], rfl, by simp⟩
  sorted := .nil
  faithful p hp := by cases hp
  follows r receiver h := by simp [TopicHub.new] at h

theorem TopicLedger.Follows.of_messages (h : ledger.Follows r receiver)
    (hmessages : ∀ P ∈ [Published.returnedTo r, Published.handedOn receiver.topic,
      Published.handedBefore r receiver.topic], ledger'.messages P = ledger.messages P)
    (hlater : receiver.isOpen = true → ∀ p ∈ ledger'.entries, p.topic = receiver.topic →
      r < p.subscriptions → p ∈ ledger.entries ∨ p.fate = .sending) :
    ledger'.Follows r receiver where
  reads := by
    rw [hmessages _ (by simp), hmessages _ (by simp), hmessages _ (by simp)]
    exact h.reads
  later hopen p hp htopic hafter := by
    rcases hlater hopen p hp htopic hafter with hold | hsending
    · exact h.later hopen p hold htopic hafter
    · exact .inl hsending

theorem messages_publish (h : ∀ p : Published T M,
      p.fate = .queued ∨ p.fate = .evicted ∨ p.fate = .sending → P p = false) :
    (ledger.publish topic message live).messages P = ledger.messages P := by
  have hevict : ∀ p : Published T M, p.queuedOn topic = true →
      P p = false ∧ P { p with fate := .evicted } = false := by
    intro p hp
    exact ⟨h p (.inl (queuedOn_eq_true.1 hp).2), h _ (.inr (.inl rfl))⟩
  unfold TopicLedger.publish
  split_ifs
  · rw [messages_append, messages_singleton, h _ (.inl rfl), messages_evictOldest hevict]
    simp [TopicLedger.messages]
  · rw [messages_append, messages_singleton, h _ (.inl rfl)]
    simp [TopicLedger.messages]
  · rw [messages_append, messages_singleton, h _ (.inr (.inr rfl))]
    simp [TopicLedger.messages]

theorem messages_publish_handedOn :
    (ledger.publish topic message live).messages (Published.handedOn t) =
      ledger.messages (Published.handedOn t) := by
  apply messages_publish
  rintro p (h | h | h) <;> simp [Published.handedOn, TopicFate.isHanded, h]

theorem messages_publish_of_mem (hP : P ∈ [Published.returnedTo r, Published.handedOn t,
      Published.handedBefore r t]) :
    (ledger.publish topic message live).messages P = ledger.messages P := by
  simp only [List.mem_cons, List.not_mem_nil, or_false] at hP
  apply messages_publish
  intro p h
  rcases hP with rfl | rfl | rfl <;> rcases h with h | h | h <;>
    simp [Published.returnedTo, Published.handedBefore, Published.handedOn, TopicFate.isHanded, h]

theorem messages_publish_queuedOn :
    (ledger.publish topic message live).messages (Published.queuedOn t) =
      if t = topic ∧ live = [] then
        TopicHub.enqueue (ledger.messages (Published.queuedOn t)) message
      else ledger.messages (Published.queuedOn t) := by
  have hnew : ∀ fate, (⟨[⟨topic, message, ledger.subscriptions.length, fate⟩],
      ledger.subscriptions⟩ : TopicLedger T M).messages (Published.queuedOn t) =
        if t = topic ∧ fate = .queued then [message] else [] := by
    intro fate
    rw [messages_singleton]
    exact if_congr (queuedOn_eq_true.trans (and_congr_left fun _ => eq_comm)) rfl rfl
  unfold TopicLedger.publish TopicHub.enqueue
  by_cases hlive : live = []
  · simp only [if_pos hlive]
    rw [messages_append, hnew]
    by_cases ht : t = topic
    · subst ht
      simp only [hlive, and_self, if_true]
      congr 1
      split_ifs
      · rw [messages_evictOldest_queued, if_pos rfl]
      · rfl
    · simp only [ht, false_and, if_false, List.append_nil]
      split_ifs
      · rw [messages_evictOldest_queued, if_neg ht]
      · rfl
  · simp only [if_neg hlive]
    rw [messages_append, hnew, if_neg (by simp), if_neg (by simp [hlive]), List.append_nil]

theorem mem_publish (h : p ∈ (ledger.publish topic message live).entries) :
    p ∈ ledger.entries ∨ (∃ q ∈ ledger.entries, q.fate = .queued ∧ p = { q with fate := .evicted }) ∨
      p = ⟨topic, message, ledger.subscriptions.length, if live = [] then .queued else .sending⟩ := by
  unfold TopicLedger.publish at h
  split_ifs at h with hlive hfull
  · rcases List.mem_append.1 h with hold | hnew
    · exact (mem_evictOldest hold).imp_right .inl
    · exact .inr (.inr (by simpa [hlive] using hnew))
  · rcases List.mem_append.1 h with hold | hnew
    · exact .inl hold
    · exact .inr (.inr (by simpa [hlive] using hnew))
  · rcases List.mem_append.1 h with hold | hnew
    · exact .inl hold
    · exact .inr (.inr (by simpa [hlive] using hnew))

theorem subscriptions_publish :
    (ledger.publish topic message live).subscriptions = ledger.subscriptions := by
  unfold TopicLedger.publish
  split_ifs <;> rfl

theorem map_subscriptions_publish :
    (ledger.publish topic message live).entries.map (·.subscriptions) =
      ledger.entries.map (·.subscriptions) ++ [ledger.subscriptions.length] := by
  unfold TopicLedger.publish
  split_ifs
  · rw [List.map_append, map_subscriptions_evictOldest]
    rfl
  · exact List.map_append
  · exact List.map_append

omit [LinearOrder T] in
theorem Published.Faithful.of_subscriptions (h : p.Faithful ledger)
    (hsubscriptions : ∃ more, ledger'.subscriptions = ledger.subscriptions ++ more) :
    p.Faithful ledger' := by
  obtain ⟨more, hmore⟩ := hsubscriptions
  have hlift : ∀ {r : Nat} {t : T}, ledger.subscriptions[r]? = some t →
      ledger'.subscriptions[r]? = some t := by
    intro r t hr
    rw [hmore, List.getElem?_append_left (List.getElem?_eq_some_iff.1 hr).1, hr]
  constructor
  · rw [hmore, List.length_append]
    exact Nat.le_add_right_of_le h.subscriptions
  · intro receivers hfate
    obtain ⟨hne, hnodup, hreceivers⟩ := h.handed receivers hfate
    exact ⟨hne, hnodup, fun r hr => (hreceivers r hr).imp_right hlift⟩
  · intro r hfate
    exact (h.returned r hfate).imp_right hlift

theorem TopicLedger.Follows.not_queued (h : ledger.Follows r receiver)
    (hopen : receiver.isOpen = true) (hp : p ∈ ledger.entries) (htopic : p.topic = receiver.topic)
    (hafter : r < p.subscriptions) : p.fate ≠ .queued := by
  intro hqueued
  rcases h.later hopen p hp htopic hafter with hsending | ⟨receivers, hhanded, -⟩
  · rw [hqueued] at hsending
    cases hsending
  · rw [hqueued] at hhanded
    cases hhanded

namespace TopicHub.Conserves

theorem length_receivers (h : hub.Conserves ledger) :
    hub.receivers.length = ledger.subscriptions.length := by
  rw [← h.subscriptions, List.length_map]

theorem lt_of_receiver (h : hub.Conserves ledger) (hr : hub.receivers[r]? = some receiver) :
    r < ledger.subscriptions.length :=
  h.length_receivers ▸ (List.getElem?_eq_some_iff.1 hr).1

theorem subscription (h : hub.Conserves ledger) (hr : hub.receivers[r]? = some receiver) :
    ledger.subscriptions[r]? = some receiver.topic := by
  rw [← h.subscriptions, List.getElem?_map, hr]
  rfl

theorem not_sending (h : hub.Conserves ledger) (hnone : hub.publishing = none)
    (hp : p ∈ ledger.entries) : p.fate ≠ .sending := by
  obtain ⟨done, hentries, hdone⟩ := h.sending
  rw [hnone] at hentries
  exact hdone p (by simpa [hentries] using hp)

theorem sorted_publish (h : hub.Conserves ledger) :
    (ledger.publish topic message live).entries.Pairwise
      fun a b => a.subscriptions ≤ b.subscriptions := by
  rw [← List.pairwise_map (f := fun p : Published T M => p.subscriptions) (R := (· ≤ ·)),
    map_subscriptions_publish, List.pairwise_append]
  refine ⟨List.pairwise_map.2 h.sorted, List.pairwise_singleton _ _, ?_⟩
  intro a ha b hb
  obtain ⟨p, hp, rfl⟩ := List.mem_map.1 ha
  rw [List.mem_singleton.1 hb]
  exact (h.faithful p hp).subscriptions

theorem faithful_publish (h : hub.Conserves ledger)
    (hp : p ∈ (ledger.publish topic message live).entries) :
    p.Faithful (ledger.publish topic message live) := by
  have hbefore : p.Faithful ledger := by
    rcases mem_publish hp with hold | ⟨q, hq, -, rfl⟩ | rfl
    · exact h.faithful p hold
    · exact ⟨(h.faithful q hq).subscriptions, by simp, by simp⟩
    · refine ⟨le_rfl, ?_, ?_⟩ <;> split_ifs <;> simp
  exact hbefore.of_subscriptions ⟨[], by rw [subscriptions_publish, List.append_nil]⟩

theorem publish (h : hub.Conserves ledger) (hnone : hub.publishing = none) (topic : T)
    (message : M) :
    (hub.publish topic message).Conserves (ledger.publish topic message (hub.live topic)) := by
  have hreceivers : (hub.publish topic message).receivers = hub.receivers := by
    unfold TopicHub.publish
    split_ifs <;> rfl
  have hstate : ∀ t, (hub.publish topic message).state t =
      if t = topic ∧ hub.live topic = [] then
        { hub.state t with
          queuedMessages := TopicHub.enqueue (hub.state t).queuedMessages message }
      else hub.state t := by
    intro t
    unfold TopicHub.publish
    simp only [TopicHub.receiverCount_eq_zero_iff]
    split_ifs with hlive ht ht
    · rw [TopicHub.state_insert _ _ _ hub.receivers _ hub.publishing, if_pos ht.1, ht.1]
    · rw [TopicHub.state_insert _ _ _ hub.receivers _ hub.publishing,
        if_neg fun heq => ht ⟨heq, hlive⟩]
    · exact absurd ht.2 hlive
    · rw [TopicHub.state_insert _ _ _ hub.receivers _ hub.publishing]
      split_ifs with heq
      · rw [heq]
      · rfl
  refine ⟨fun t => ?_, fun t => ?_, fun t => ?_, ?_, ?_, h.sorted_publish,
    fun p => h.faithful_publish, fun r receiver hr => ?_⟩
  · rw [hstate, messages_publish_queuedOn, apply_ite TopicState.queuedMessages, h.queue]
  · rw [hstate, apply_ite TopicState.queuedMessages]
    split_ifs
    · exact TopicHub.length_enqueue (h.bound t)
    · exact h.bound t
  · rw [hstate, messages_publish_handedOn, apply_ite TopicState.sender, ite_self]
    exact h.channel t
  · rw [hreceivers, subscriptions_publish, h.subscriptions]
  · by_cases hlive : hub.live topic = []
    · have hpublishing : (hub.publish topic message).publishing = none := by
        rw [TopicHub.publish, if_pos (TopicHub.receiverCount_eq_zero_iff.2 hlive), hnone]
      refine ⟨_, by rw [hpublishing, Option.map_none, Option.toList_none, List.append_nil], ?_⟩
      intro p hp
      rcases mem_publish hp with hold | ⟨q, -, -, rfl⟩ | rfl
      · exact h.not_sending hnone hold
      · simp
      · simp [hlive]
    · have hpublishing : (hub.publish topic message).publishing = some (topic, message) := by
        rw [TopicHub.publish, if_neg (mt TopicHub.receiverCount_eq_zero_iff.1 hlive)]
      refine ⟨ledger.entries, ?_, fun p => h.not_sending hnone⟩
      rw [hpublishing, TopicLedger.publish, if_neg hlive]
      rfl
  · rw [hreceivers] at hr
    refine (h.follows r receiver hr).of_messages (fun P => messages_publish_of_mem) ?_
    intro hopen p hp htopic hafter
    rcases mem_publish hp with hold | ⟨q, hq, hqueued, rfl⟩ | rfl
    · exact .inl hold
    · exact absurd hqueued ((h.follows r receiver hr).not_queued hopen hq htopic hafter)
    · -- the receiver is one of those counted
      have hlive : r ∈ hub.live topic := TopicHub.mem_live.2 ⟨receiver, hr, hopen, htopic.symm⟩
      exact .inr (if_neg (List.ne_nil_of_mem hlive))

end TopicHub.Conserves

omit [LinearOrder T] in
theorem entries_send (hentries : ledger.entries = done ++
      [⟨topic, message, ledger.subscriptions.length, .sending⟩])
    (hdone : ∀ p ∈ done, p.fate ≠ .sending) :
    ledger.send live = ⟨done ++ [⟨topic, message, ledger.subscriptions.length, .sentTo live⟩],
      ledger.subscriptions⟩ := by
  have hkeep : done.map (Published.finish live) = done := by
    rw [List.map_congr_left (g := id), List.map_id]
    intro p hp
    exact if_neg (hdone p hp)
  rw [TopicLedger.send, hentries, List.map_append, hkeep]
  rfl

theorem TopicHub.receivers_send : (hub.send topic message).receivers = hub.receivers := by
  unfold TopicHub.send
  split_ifs <;> rfl

theorem TopicHub.publishing_send : (hub.send topic message).publishing = none := by
  unfold TopicHub.send
  split_ifs <;> rfl

theorem TopicHub.state_send (t : T) : (hub.send topic message).state t =
    if t = topic ∧ hub.live topic ≠ [] then
      { hub.state t with sender := (hub.state t).sender.send topicChannelCapacity message }
    else hub.state t := by
  unfold TopicHub.send
  simp only [TopicHub.receiverCount_eq_zero_iff]
  split_ifs with hlive ht ht
  · exact absurd hlive ht.2
  · rfl
  · rw [TopicHub.state_insert _ _ _ hub.receivers _ hub.publishing, if_pos ht.1, ht.1]
  · rw [TopicHub.state_insert _ _ _ hub.receivers _ hub.publishing,
      if_neg fun heq => ht ⟨heq, hlive⟩]

namespace TopicHub.Conserves

theorem sending_last (h : hub.Conserves ledger) (hsome : hub.publishing = some (topic, message)) :
    ∃ done, ledger.entries = done ++
      [⟨topic, message, ledger.subscriptions.length, .sending⟩] ∧ ∀ p ∈ done, p.fate ≠ .sending := by
  obtain ⟨done, hentries, hdone⟩ := h.sending
  rw [hsome] at hentries
  exact ⟨done, hentries, hdone⟩

/-- What does not select messages that are being sent sees the message in its new fate. -/
theorem messages_send (h : hub.Conserves ledger) (hsome : hub.publishing = some (topic, message))
    {P : Published T M → Bool}
    (hP : P ⟨topic, message, ledger.subscriptions.length, .sending⟩ = false) :
    (ledger.send live).messages P = ledger.messages P ++
      if P ⟨topic, message, ledger.subscriptions.length, .sentTo live⟩ = true then [message]
      else [] := by
  obtain ⟨done, hentries, hdone⟩ := h.sending_last hsome
  have hledger : ledger = ⟨done ++ [⟨topic, message, ledger.subscriptions.length, .sending⟩],
      ledger.subscriptions⟩ := by
    rw [← hentries]
  have hbefore : ledger.messages P =
      (⟨done, ledger.subscriptions⟩ : TopicLedger T M).messages P := by
    rw [hledger, messages_append, messages_singleton, hP, if_neg Bool.false_ne_true,
      List.append_nil]
  rw [entries_send hentries hdone, messages_append, messages_singleton, hbefore]

theorem mem_send (h : hub.Conserves ledger) (hsome : hub.publishing = some (topic, message))
    (hp : p ∈ (ledger.send live).entries) : p ∈ ledger.entries ∧ p.fate ≠ .sending ∨
      p = ⟨topic, message, ledger.subscriptions.length, .sentTo live⟩ := by
  obtain ⟨done, hentries, hdone⟩ := h.sending_last hsome
  rw [entries_send hentries hdone] at hp
  rcases List.mem_append.1 hp with hold | hnew
  · exact .inl ⟨hentries ▸ List.mem_append_left _ hold, hdone p hold⟩
  · exact .inr (List.mem_singleton.1 hnew)

theorem channel_send (h : hub.Conserves ledger) (hsome : hub.publishing = some (topic, message))
    (t : T) : ((hub.send topic message).state t).sender.Holds topicChannelCapacity
      ((ledger.send (hub.live topic)).messages (Published.handedOn t)) := by
  rw [TopicHub.state_send, h.messages_send hsome (by simp [Published.handedOn, TopicFate.isHanded])]
  by_cases hsent : t = topic ∧ hub.live topic ≠ []
  · rw [if_pos hsent, if_pos]
    · exact (h.channel t).send message
    · simp [handedOn_eq_true, TopicFate.sentTo, hsent, TopicFate.isHanded]
  · rw [if_neg hsent, if_neg, List.append_nil]
    · exact h.channel t
    · rw [handedOn_eq_true]
      rintro ⟨rfl, hhanded⟩
      refine hsent ⟨rfl, fun hlive => ?_⟩
      simp [TopicFate.sentTo, hlive, TopicFate.isHanded] at hhanded

theorem sorted_send (h : hub.Conserves ledger) (hsome : hub.publishing = some (topic, message)) :
    (ledger.send live).entries.Pairwise fun a b => a.subscriptions ≤ b.subscriptions := by
  obtain ⟨done, hentries, hdone⟩ := h.sending_last hsome
  have hsorted := h.sorted
  rw [hentries, List.pairwise_append] at hsorted
  rw [entries_send hentries hdone, List.pairwise_append]
  refine ⟨hsorted.1, List.pairwise_singleton _ _, fun a ha b hb => ?_⟩
  rw [List.mem_singleton.1 hb]
  exact hsorted.2.2 a ha ⟨topic, message, ledger.subscriptions.length, .sending⟩
    (List.mem_singleton.2 rfl)

/-- The message was handed to the live receivers of its topic, all of them subscribed before. -/
theorem faithful_send (h : hub.Conserves ledger) (hsome : hub.publishing = some (topic, message))
    (hp : p ∈ (ledger.send (hub.live topic)).entries) :
    p.Faithful (ledger.send (hub.live topic)) := by
  rcases h.mem_send hsome hp with ⟨hold, -⟩ | rfl
  · exact (h.faithful p hold).of_subscriptions ⟨[], (List.append_nil _).symm⟩
  · refine ⟨le_rfl, fun receivers hhanded => ?_, fun r hreturned => ?_⟩
    · simp only [TopicFate.sentTo] at hhanded
      split_ifs at hhanded with hlive
      obtain rfl := TopicFate.handed.inj hhanded
      refine ⟨hlive, hub.nodup_live topic, fun r hr => ?_⟩
      obtain ⟨receiver, hreceiver, -, rfl⟩ := TopicHub.mem_live.1 hr
      exact ⟨h.lt_of_receiver hreceiver, h.subscription hreceiver⟩
    · simp only [TopicFate.sentTo] at hreturned
      split_ifs at hreturned

/-- A receiver reads the message when it was handed out on its topic. -/
theorem follows_send (h : hub.Conserves ledger) (hsome : hub.publishing = some (topic, message))
    (hr : hub.receivers[r]? = some receiver) :
    (ledger.send (hub.live topic)).Follows r receiver := by
  have hfollows := h.follows r receiver hr
  constructor
  · obtain ⟨got, hgot, hreads, hbacklog⟩ := hfollows.reads
    refine ⟨got, ?_, ?_, hbacklog⟩
    · rw [h.messages_send hsome (by simp [Published.returnedTo]), if_neg, List.append_nil, hgot]
      rw [Published.returnedTo, decide_eq_true_iff]
      simp only [TopicFate.sentTo]
      split_ifs <;> simp
    · rw [h.messages_send (P := Published.handedOn receiver.topic) hsome
          (by simp [Published.handedOn, TopicFate.isHanded]),
        h.messages_send (P := Published.handedBefore r receiver.topic) hsome
          (by simp [Published.handedBefore, Published.handedOn, TopicFate.isHanded]),
        if_neg (c := Published.handedBefore r receiver.topic _ = true), List.append_nil]
      · split_ifs
        · exact hreads.send message
        · rw [List.append_nil]
          exact hreads
      · simp [Published.handedBefore, h.lt_of_receiver hr]
  · intro hopen p hp htopic hafter
    rcases h.mem_send hsome hp with ⟨hold, -⟩ | rfl
    · rcases hfollows.later hopen p hold htopic hafter with hsending | hhanded
      · exact .inl hsending
      · exact .inr hhanded
    · have hlive : r ∈ hub.live topic := TopicHub.mem_live.2 ⟨receiver, hr, hopen, htopic.symm⟩
      exact .inr ⟨hub.live topic, if_neg (List.ne_nil_of_mem hlive), hlive⟩

theorem send (h : hub.Conserves ledger) (hsome : hub.publishing = some (topic, message)) :
    (hub.send topic message).Conserves (ledger.send (hub.live topic)) := by
  refine ⟨fun t => ?_, fun t => ?_, h.channel_send hsome, ?_, ?_, h.sorted_send hsome,
    fun p => h.faithful_send hsome, fun r receiver hr => ?_⟩
  · rw [TopicHub.state_send, apply_ite TopicState.queuedMessages, ite_self, h.queue,
      h.messages_send hsome (by simp [Published.queuedOn]), if_neg, List.append_nil]
    rw [queuedOn_eq_true]
    rintro ⟨-, hqueued⟩
    simp only [TopicFate.sentTo] at hqueued
    split_ifs at hqueued
  · rw [TopicHub.state_send, apply_ite TopicState.queuedMessages, ite_self]
    exact h.bound t
  · rw [TopicHub.receivers_send, h.subscriptions]
    rfl
  · refine ⟨(ledger.send (hub.live topic)).entries, ?_, fun p hp => ?_⟩
    · rw [TopicHub.publishing_send, Option.map_none, Option.toList_none, List.append_nil]
    · rcases h.mem_send hsome hp with ⟨-, hfate⟩ | rfl
      · exact hfate
      · simp only [TopicFate.sentTo]
        split_ifs <;> simp
  · rw [TopicHub.receivers_send] at hr
    exact h.follows_send hsome hr

end TopicHub.Conserves

theorem isHanded_take (p : Published T M) : (p.take topic r).fate.isHanded = p.fate.isHanded := by
  rcases take_cases topic r p with htake | ⟨hqueued, htake⟩
  · rw [htake]
  · rw [htake, (queuedOn_eq_true.1 hqueued).2]
    rfl

theorem handedOn_take (p : Published T M) : (p.take topic r).handedOn t = p.handedOn t := by
  rw [Published.handedOn, Published.handedOn, topic_take, isHanded_take]

theorem messages_subscribe_handedOn :
    (ledger.subscribe topic).messages (Published.handedOn t) =
      ledger.messages (Published.handedOn t) :=
  messages_map message_take fun p _ => handedOn_take p

theorem messages_subscribe_handedBefore :
    (ledger.subscribe topic).messages (Published.handedBefore r t) =
      ledger.messages (Published.handedBefore r t) :=
  messages_map message_take fun p _ => by
    rw [Published.handedBefore, Published.handedBefore, handedOn_take, subscriptions_take]

theorem messages_subscribe_queuedOn :
    (ledger.subscribe topic).messages (Published.queuedOn t) =
      if t = topic then [] else ledger.messages (Published.queuedOn t) := by
  have hkeep : (ledger.subscribe topic).messages (Published.queuedOn t) =
      ledger.messages fun p => !decide (t = topic) && p.queuedOn t := by
    refine messages_map message_take fun p _ => ?_
    by_cases hqueued : p.queuedOn topic = true
    · rw [Published.take, if_pos hqueued]
      by_cases ht : t = topic
      · simp [Published.queuedOn, ht]
      · simp [Published.queuedOn, (queuedOn_eq_true.1 hqueued).1, ht, Ne.symm ht]
    · rw [Published.take, if_neg hqueued]
      by_cases ht : t = topic
      · subst ht
        simp [hqueued]
      · simp [ht]
  rw [hkeep]
  split_ifs with ht <;> simp [TopicLedger.messages, ht]

theorem messages_subscribe_returnedTo
    (hreturned : ∀ p ∈ ledger.entries, p.fate ≠ .returned ledger.subscriptions.length) :
    (ledger.subscribe topic).messages (Published.returnedTo r) =
      if r = ledger.subscriptions.length then ledger.messages (Published.queuedOn topic)
      else ledger.messages (Published.returnedTo r) := by
  split_ifs with hlast
  · refine messages_map message_take fun p hp => ?_
    by_cases hqueued : p.queuedOn topic = true
    · simp [Published.take, hqueued, Published.returnedTo, hlast]
    · simp [Published.take, hqueued, Published.returnedTo, hlast, hreturned p hp]
  · refine messages_map message_take fun p hp => ?_
    rcases take_cases topic ledger.subscriptions.length p with htake | ⟨hqueued, htake⟩
    · rw [htake]
    · have hother := (queuedOn_eq_true.1 hqueued).2
      simp [htake, Published.returnedTo, hother, Ne.symm hlast]

theorem TopicHub.state_subscribe (t : T) : (hub.subscribe topic).state t =
    if t = topic then { hub.state t with queuedMessages := [] } else hub.state t := by
  unfold TopicHub.subscribe
  rw [TopicHub.state_insert _ _ _ hub.receivers _ hub.publishing]
  split_ifs with ht
  · rw [ht]
  · rfl

namespace TopicHub.Conserves

theorem not_returned (h : hub.Conserves ledger) (hp : p ∈ ledger.entries) :
    p.fate ≠ .returned ledger.subscriptions.length := by
  intro hreturned
  obtain ⟨-, hsubscription⟩ := (h.faithful p hp).returned _ hreturned
  exact absurd (List.getElem?_eq_some_iff.1 hsubscription).1 (lt_irrefl _)

/-- A message that the subscription takes is returned to its new number. -/
theorem faithful_subscribe (h : hub.Conserves ledger) (hp : p ∈ (ledger.subscribe topic).entries) :
    p.Faithful (ledger.subscribe topic) := by
  obtain ⟨q, hq, rfl⟩ := List.mem_map.1 hp
  rcases take_cases topic ledger.subscriptions.length q with htake | ⟨hqueued, htake⟩
  · rw [htake]
    exact (h.faithful q hq).of_subscriptions ⟨[topic], rfl⟩
  · rw [htake]
    have hsubscriptions := (h.faithful q hq).subscriptions
    refine ⟨?_, by simp, fun r hreturned => ?_⟩
    · rw [TopicLedger.subscribe, List.length_append]
      exact Nat.le_add_right_of_le hsubscriptions
    · obtain rfl := TopicFate.returned.inj hreturned
      refine ⟨hsubscriptions, ?_⟩
      rw [TopicLedger.subscribe, List.getElem?_concat_length, (queuedOn_eq_true.1 hqueued).1]

theorem follows_subscribe (h : hub.Conserves ledger) (hr : hub.receivers[r]? = some receiver) :
    (ledger.subscribe topic).Follows r receiver := by
  have hfollows := h.follows r receiver hr
  constructor
  · rw [messages_subscribe_returnedTo fun p => h.not_returned, if_neg (h.lt_of_receiver hr).ne,
      messages_subscribe_handedOn, messages_subscribe_handedBefore]
    exact hfollows.reads
  · intro hopen p hp htopic hafter
    obtain ⟨q, hq, rfl⟩ := List.mem_map.1 hp
    rw [topic_take] at htopic
    rw [subscriptions_take] at hafter
    rcases take_cases topic ledger.subscriptions.length q with htake | ⟨hqueued, -⟩
    · rw [htake]
      exact hfollows.later hopen q hq htopic hafter
    · exact absurd (queuedOn_eq_true.1 hqueued).2 (hfollows.not_queued hopen hq htopic hafter)

/-- The new subscriber starts with the queue of its topic and reads what is handed out from now. -/
theorem follows_subscribe_new (h : hub.Conserves ledger)
    (hreceiver : (hub.subscribe topic).receivers[ledger.subscriptions.length]? = some receiver) :
    (ledger.subscribe topic).Follows ledger.subscriptions.length receiver := by
  rw [TopicHub.subscribe, ← h.length_receivers, List.getElem?_concat_length] at hreceiver
  obtain rfl := Option.some.inj hreceiver
  have hbefore : ledger.messages (Published.handedBefore ledger.subscriptions.length topic) =
      ledger.messages (Published.handedOn topic) := by
    refine messages_congr fun p hp => ?_
    simp [Published.handedBefore, (h.faithful p hp).subscriptions]
  constructor
  · refine ⟨[], ?_, ?_, fun _ => rfl⟩
    · rw [messages_subscribe_returnedTo fun p => h.not_returned, if_pos rfl, List.nil_append,
        List.append_nil, h.queue]
    · rw [messages_subscribe_handedOn, messages_subscribe_handedBefore, hbefore,
        (h.channel topic).position]
      exact Broadcast.reads_start _ _
  · intro hopen p hp htopic hafter
    obtain ⟨q, hq, rfl⟩ := List.mem_map.1 hp
    rw [subscriptions_take] at hafter
    exact absurd (h.faithful q hq).subscriptions hafter.not_ge

theorem subscribe (h : hub.Conserves ledger) (hnone : hub.publishing = none) (topic : T) :
    (hub.subscribe topic).Conserves (ledger.subscribe topic) := by
  have hentries : (ledger.subscribe topic).entries =
      ledger.entries.map (Published.take topic ledger.subscriptions.length) := rfl
  refine ⟨fun t => ?_, fun t => ?_, fun t => ?_, ?_, ?_, ?_, fun p => h.faithful_subscribe,
    fun r receiver hr => ?_⟩
  · rw [TopicHub.state_subscribe, messages_subscribe_queuedOn, apply_ite TopicState.queuedMessages,
      h.queue]
  · rw [TopicHub.state_subscribe, apply_ite TopicState.queuedMessages]
    split_ifs
    · exact Nat.zero_le _
    · exact h.bound t
  · rw [TopicHub.state_subscribe, messages_subscribe_handedOn, apply_ite TopicState.sender, ite_self]
    exact h.channel t
  · rw [TopicHub.subscribe, List.map_append, h.subscriptions]
    rfl
  · have hpublishing : (hub.subscribe topic).publishing = none := hnone
    refine ⟨_, by rw [hpublishing, Option.map_none, Option.toList_none, List.append_nil], ?_⟩
    intro p hp
    obtain ⟨q, hq, rfl⟩ := List.mem_map.1 hp
    rcases take_cases topic ledger.subscriptions.length q with htake | ⟨-, htake⟩
    · rw [htake]
      exact h.not_sending hnone hq
    · simp [htake]
  · rw [hentries, List.pairwise_map]
    simp only [subscriptions_take]
    exact h.sorted
  · have hlength : (hub.subscribe topic).receivers.length = hub.receivers.length + 1 := by
      rw [TopicHub.subscribe, List.length_append, List.length_singleton]
    have hlt := (List.getElem?_eq_some_iff.1 hr).1
    rcases Nat.lt_or_ge r hub.receivers.length with hold | hnew
    · rw [TopicHub.subscribe, List.getElem?_append_left hold] at hr
      exact h.follows_subscribe hr
    · obtain rfl : r = ledger.subscriptions.length := by
        rw [← h.length_receivers]
        omega
      exact h.follows_subscribe_new hr

end TopicHub.Conserves

namespace TopicHub.Conserves

theorem follows_advance (h : hub.Conserves ledger) (hfollows : ledger.Follows r receiver) :
    ledger.Follows r (advance (hub.state receiver.topic).sender receiver) := by
  obtain ⟨got, hgot, hreads, hbacklog⟩ := hfollows.reads
  unfold advance
  cases hrest : receiver.backlog with
  | cons message rest =>
      rw [hrest] at hgot
      refine ⟨⟨got, ?_, hreads, fun _ => hbacklog (by simp [hrest])⟩, hfollows.later⟩
      rw [← hgot, List.append_assoc]
      rfl
  | nil =>
      rw [hrest, List.append_nil] at hgot
      have hreceive := hreads.receive (h.channel receiver.topic)
      rcases hreceived : (hub.state receiver.topic).sender.receive receiver.next with ⟨received, next⟩
      rw [hreceived] at hreceive
      cases received with
      | message message =>
          refine ⟨⟨got ++ [message], ?_, hreceive, fun hne => absurd rfl hne⟩, hfollows.later⟩
          simp only [hgot, List.append_nil, List.append_assoc]
      | empty => exact ⟨⟨got, by simp only [hgot, List.append_nil], hreceive,
          fun hne => absurd rfl hne⟩, hfollows.later⟩
      | lagged missed => exact ⟨⟨got, by simp only [hgot, List.append_nil], hreceive,
          fun hne => absurd rfl hne⟩, hfollows.later⟩

theorem set_receiver (h : hub.Conserves ledger) (hr : hub.receivers[r]? = some receiver)
    {receiver' : TopicReceiver T M} (htopic : receiver'.topic = receiver.topic)
    (hfollows : ledger.Follows r receiver') :
    ({ hub with receivers := hub.receivers.set r receiver' } : TopicHub T M).Conserves ledger := by
  refine ⟨h.queue, h.bound, h.channel, ?_, h.sending, h.sorted, h.faithful, ?_⟩
  · rw [List.map_set, h.subscriptions, htopic]
    have hsubscription := h.subscription hr
    obtain ⟨hlt, heq⟩ := List.getElem?_eq_some_iff.1 hsubscription
    rw [← heq, List.set_getElem_self]
  · intro i other hi
    rcases eq_or_ne i r with rfl | hother
    · rw [List.getElem?_set_self (List.getElem?_eq_some_iff.1 hr).1] at hi
      exact Option.some.inj hi ▸ hfollows
    · rw [List.getElem?_set_ne hother.symm] at hi
      exact h.follows i other hi

/-- The ledger is kept up to date by every step. -/
theorem step (h : hub.Conserves ledger) {action : TopicAction T M} {next : TopicHub T M}
    (hstep : hub.step action = some next) : next.Conserves (ledger.step hub action) := by
  obtain ⟨topic, message, rfl, hnone, rfl⟩ | ⟨topic, message, rfl, hsome, rfl⟩ |
    ⟨topic, rfl, hnone, rfl⟩ | ⟨r, receiver, rfl, hr, hopen, rfl⟩ |
    ⟨r, receiver, rfl, hr, hopen, rfl⟩ := TopicHub.step_cases hstep
  · exact h.publish hnone topic message
  · rw [TopicLedger.step, hsome]
    exact h.send hsome
  · exact h.subscribe hnone topic
  · refine h.set_receiver hr ?_ (h.follows_advance (h.follows r receiver hr))
    unfold advance
    split <;> [rfl; split <;> rfl]
  · refine h.set_receiver hr rfl ?_
    obtain ⟨hreads, -⟩ := h.follows r receiver hr
    exact ⟨hreads, fun hopen => nomatch hopen⟩

end TopicHub.Conserves

def TopicLedger.Loses (ledger : TopicLedger T M) : Prop := ∃ p ∈ ledger.entries, p.fate = .lost

/-- A publish that has counted receivers finds some when it sends. -/
def TopicHub.FindsReceiver (hub : TopicHub T M) : TopicAction T M → Prop
  | .send => ∀ topic message, hub.publishing = some (topic, message) → hub.receiverCount topic ≠ 0
  | _ => True

def TopicLedger.after (actions : List (TopicAction T M)) : TopicLedger T M :=
  observeActions TopicHub.step TopicLedger.step .new .new actions

/-- Every message published has one of the fates it should have, the queues and the channels are
what the fates say, and so is what the subscribers yield: the messages queued before them, and of
the messages handed out after them all that did not fall too far behind. -/
structure TopicHub.LosesNothing (hub : TopicHub T M) (ledger : TopicLedger T M) : Prop where
  conserves : hub.Conserves ledger
  order : ∀ r topic, ledger.messages (Published.handedOn topic) =
    ledger.messages (Published.handedBefore r topic) ++
      ledger.messages (Published.handedAfter r topic)
  found : ¬ ledger.Loses

theorem loses_publish : (ledger.publish topic message live).Loses ↔ ledger.Loses := by
  have hlost : ∀ ledger : TopicLedger T M,
      ledger.Loses ↔ ledger.messages (fun p => decide (p.fate = .lost)) ≠ [] := by
    intro ledger
    simp [TopicLedger.Loses, TopicLedger.messages]
  rw [hlost, hlost, messages_publish]
  rintro p (h | h | h) <;> simp [h]

theorem loses_subscribe : (ledger.subscribe topic).Loses ↔ ledger.Loses := by
  unfold TopicLedger.Loses TopicLedger.subscribe
  simp only [List.mem_map, exists_exists_and_eq_and]
  refine exists_congr fun p => and_congr_right fun _ => ?_
  rcases take_cases topic ledger.subscriptions.length p with htake | ⟨hqueued, htake⟩
  · rw [htake]
  · rw [htake, (queuedOn_eq_true.1 hqueued).2]
    simp

theorem TopicHub.Conserves.loses_step (h : hub.Conserves ledger) {action : TopicAction T M}
    {next : TopicHub T M} (hstep : hub.step action = some next) :
    (ledger.step hub action).Loses ↔ ledger.Loses ∨ ¬ hub.FindsReceiver action := by
  obtain ⟨topic, message, rfl, -, rfl⟩ | ⟨topic, message, rfl, hsome, rfl⟩ |
    ⟨topic, rfl, -, rfl⟩ | ⟨r, receiver, rfl, -, -, rfl⟩ | ⟨r, receiver, rfl, -, -, rfl⟩ :=
    TopicHub.step_cases hstep
  · simp [TopicLedger.step, loses_publish, TopicHub.FindsReceiver]
  · obtain ⟨done, hentries, hdone⟩ := h.sending_last hsome
    have hfinds : hub.FindsReceiver .send ↔ hub.live topic ≠ [] := by
      simp [TopicHub.FindsReceiver, hsome, TopicHub.receiverCount_eq_zero_iff]
    rw [TopicLedger.step, hsome]
    simp only
    rw [entries_send hentries hdone, hfinds]
    by_cases hlive : hub.live topic = [] <;>
      simp [TopicLedger.Loses, TopicFate.sentTo, hentries, hlive, or_and_right, exists_or]
  · simp [TopicLedger.step, loses_subscribe, TopicHub.FindsReceiver]
  · simp [TopicLedger.step, TopicHub.FindsReceiver]
  · simp [TopicLedger.step, TopicHub.FindsReceiver]

/-- What was handed out before a subscription was handed out first. -/
theorem messages_handedOn_eq (h : ledger.entries.Pairwise fun a b => a.subscriptions ≤ b.subscriptions)
    (r : Nat) (topic : T) :
    ledger.messages (Published.handedOn topic) =
      ledger.messages (Published.handedBefore r topic) ++
        ledger.messages (Published.handedAfter r topic) := by
  obtain ⟨entries, subscriptions⟩ := ledger
  induction entries with
  | nil => rfl
  | cons p rest ih =>
      obtain ⟨hp, hrest⟩ := List.pairwise_cons.1 h
      rcases Nat.lt_or_ge r p.subscriptions with hafter | hbefore
      · -- nothing that follows was handed out before
        have hnone : ∀ q ∈ p :: rest, q.handedBefore r topic = false := by
          intro q hq
          have hq' : r < q.subscriptions := by
            rcases List.mem_cons.1 hq with rfl | hmem
            · exact hafter
            · exact hafter.trans_le (hp q hmem)
          simp [Published.handedBefore, hq']
        have hall : ∀ q ∈ p :: rest, q.handedOn topic = q.handedAfter r topic := by
          intro q hq
          have hboth : q.handedOn topic =
              (q.handedBefore r topic || q.handedAfter r topic) := by
            rw [Published.handedBefore, Published.handedAfter, ← Bool.and_or_distrib_left]
            rcases Nat.lt_or_ge r q.subscriptions with hlt | hle <;> simp [*]
          rw [hboth, hnone q hq, Bool.false_or]
        have hbefore : (⟨p :: rest, subscriptions⟩ : TopicLedger T M).messages
            (Published.handedBefore r topic) = [] := by
          simp only [TopicLedger.messages, List.filter_congr hnone]
          simp
        rw [hbefore, List.nil_append]
        exact messages_congr hall
      · have hnot : p.handedAfter r topic = false := by
          simp [Published.handedAfter, hbefore]
        have hsame : p.handedBefore r topic = p.handedOn topic := by
          simp [Published.handedBefore, hbefore]
        rw [messages_cons, messages_cons, messages_cons, hnot, hsame, ih hrest]
        simp

theorem conserves_after {actions : List (TopicAction T M)} {hub : TopicHub T M}
    (h : runActions TopicHub.step .new actions = some hub) :
    hub.Conserves (TopicLedger.after actions) :=
  observeActions_invariant (fun _ _ _ _ hinv hstep => hinv.step hstep) conserves_new h

/-- Nothing is lost exactly in the runs in which every publish that has counted receivers finds
some when it sends. -/
theorem losesNothing_iff (actions : List (TopicAction T M)) (hub : TopicHub T M)
    (h : runActions TopicHub.step .new actions = some hub) :
    hub.LosesNothing (TopicLedger.after actions) ↔
      EachAction TopicHub.step TopicHub.FindsReceiver .new actions := by
  have hconserves := conserves_after h
  have hfound : ¬ (TopicLedger.after actions).Loses ↔
      ¬ (TopicLedger.new : TopicLedger T M).Loses ∧
        EachAction TopicHub.step TopicHub.FindsReceiver .new actions :=
    not_observeActions_iff (fun _ _ _ _ hinv hstep => hinv.step hstep)
      (fun _ _ _ _ hinv hstep => hinv.loses_step hstep) conserves_new h
  have hnew : ¬ (TopicLedger.new : TopicLedger T M).Loses := by
    simp [TopicLedger.Loses, TopicLedger.new]
  constructor
  · intro hloses
    exact (hfound.1 hloses.found).2
  · intro hfinds
    exact ⟨hconserves, messages_handedOn_eq hconserves.sorted, hfound.2 ⟨hnew, hfinds⟩⟩

/-- A subscriber reads the message published while it is there, and the next one is queued. -/
theorem losesNothing_iff_oneReader :
    ∃ hub : TopicHub Nat String,
      runActions TopicHub.step .new [.subscribe 0, .publish 0 "draft", .send, .poll 0,
        .dropReceiver 0, .publish 0 "paid"] = some hub ∧
      (hub.state 0).queuedMessages = ["paid"] ∧
      hub.receivers.map (·.yielded) = [["draft"]] ∧
      hub.LosesNothing (TopicLedger.after [.subscribe 0, .publish 0 "draft", .send, .poll 0,
        .dropReceiver 0, .publish 0 "paid"]) := by
  refine ⟨_, rfl, rfl, rfl, (losesNothing_iff _ _ rfl).2 ?_⟩
  exact (eachAction_cons_iff rfl).2 ⟨trivial, (eachAction_cons_iff rfl).2 ⟨trivial,
    (eachAction_cons_iff rfl).2 ⟨by rintro _ _ ⟨⟩; decide, (eachAction_cons_iff rfl).2 ⟨trivial,
    (eachAction_cons_iff rfl).2 ⟨trivial, (eachAction_cons_iff rfl).2 ⟨trivial, trivial⟩⟩⟩⟩⟩⟩

/-- The only receiver goes after it was counted: the message is not queued and nobody yields it. -/
theorem not_losesNothing :
    ∃ hub : TopicHub Nat String,
      runActions TopicHub.step .new [.subscribe 0, .publish 0 "draft", .dropReceiver 0, .send] =
        some hub ∧
      (hub.state 0).queuedMessages = [] ∧
      hub.receivers.map (fun receiver => receiver.yielded ++ receiver.backlog) = [[]] ∧
      ¬ hub.LosesNothing (TopicLedger.after [.subscribe 0, .publish 0 "draft", .dropReceiver 0,
        .send]) := by
  refine ⟨_, rfl, rfl, rfl, fun hloses => hloses.found ?_⟩
  exact ⟨⟨0, "draft", 1, .lost⟩, List.mem_singleton.2 rfl, rfl⟩

end Steps

end Ledger

end Evobase
