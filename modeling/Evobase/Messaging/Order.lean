import Evobase.Messaging.Ledger

/-!
# The order of the events

A new connection is registered under the lock and sent its backlog after that. When no event is
handed to it in between, its channel receives the events of its user in the order of their sends;
an event that is handed to it in between comes before events that were sent earlier.

`Undisturbed` is the condition on the run, and the receivers of a channel are compared with the
ledger in the order of the sends. Without a pending replay a channel has received everything that
was taken for it and handed to it (`inOrder_of_undisturbed`).
-/

namespace Evobase

open Foundation

section Order

variable {U C E : Type} [LinearOrder U] [LinearOrder C]

def sentTo (history : List ((Nat × HubCall U C E) × HubReply C)) (user : U) : List E :=
  ((history.filterMap sentOf).filter fun sent => sent.1 = user).map fun sent => sent.2.1

/-- Every channel has received the events of the user of its connection in order. -/
def InOrder (history : List ((Nat × HubCall U C E) × HubReply C)) (hub : Hub U C E) : Prop :=
  ∀ user r, (history.filterMap connectedOf)[r]? = some user →
    (hub.channels r).received.Sublist (sentTo history user)

/-- No event is sent to a connection that is still to be sent a backlog. -/
def Undisturbed (hub : Hub U C E) (call : Nat × HubCall U C E) : Prop :=
  match call.2 with
  | .send user _ => ∀ replay ∈ hub.replays, replay.backlog ≠ [] →
      replay.sender ∉ hub.state.receivers hub.channels user
  | _ => True

/-- A channel has received what its connection has taken before what was handed to it. -/
structure Hub.Ordered (hub : Hub U C E) (ledger : Ledger U E) : Prop where
  replayed : ∀ r, ¬ hub.Pending r →
    (hub.channels r).received = ledger.taken r ++ ledger.handed r
  pending : ∀ replay ∈ hub.replays, replay.backlog = [] ∨ ledger.handed replay.sender = []

section Steps

variable {ttl : Nat} {user : U} {connectionId : C} {event : E} {hub : Hub U C E}
  {ledger : Ledger U E}

theorem Hub.Ordered.prune (h : hub.Ordered ledger) (now : Nat) :
    hub.pruned.Ordered (ledger.prune now) :=
  ⟨fun r hr => by
    rw [taken_prune, handed_prune]
    exact h.replayed r hr, fun replay hmem => by
    rw [handed_prune]
    exact h.pending replay hmem⟩

theorem Hub.Ordered.attach (h : hub.Ordered ledger) (hconserves : hub.Conserves ttl ledger) :
    (hub.attach user connectionId).2.Ordered (ledger.connect user) := by
  refine ⟨fun r hr => ?_, fun replay hmem => ?_⟩
  · have hne : r ≠ hub.created := fun heq => hr ⟨_, List.mem_cons_self, heq.symm⟩
    have hpending : ¬ hub.Pending r := by
      rintro ⟨replay, hmem, heq⟩
      exact hr ⟨replay, List.mem_cons_of_mem _ hmem, heq⟩
    rw [taken_connect hconserves.faithful, if_neg (hconserves.created ▸ hne), handed_connect,
      ← h.replayed r hpending]
    exact congrArg Channel.received (Function.update_of_ne hne _ _)
  · rw [handed_connect]
    rcases List.mem_cons.1 hmem with rfl | hmem
    · exact .inr (handed_eq_nil hconserves.faithful hconserves.created.ge)
    · exact h.pending replay hmem

theorem Hub.Ordered.detach (h : hub.Ordered ledger) :
    (hub.detach user connectionId).2.Ordered ledger := by
  unfold Hub.detach
  cases hub.state.connections.get? user with
  | none => exact h
  | some userConnections => exact ⟨h.replayed, h.pending⟩

theorem Hub.Ordered.dropReceiver (h : hub.Ordered ledger) (receiver : Nat) :
    (hub.dropReceiver receiver).2.Ordered ledger := by
  unfold Hub.dropReceiver
  split_ifs with hpending
  · exact h
  · refine ⟨fun r hr => ?_, h.pending⟩
    rw [← h.replayed r hr]
    by_cases hr' : r = receiver
    · subst hr'
      simp only [Function.update_self]
    · simp only [Function.update_of_ne hr']

theorem Hub.Ordered.replay (h : hub.Ordered ledger) (hconserves : hub.Conserves ttl ledger)
    (sender : Nat) : (hub.replay sender).2.Ordered ledger := by
  unfold Hub.replay
  cases hfind : hub.replays.find? fun replay => replay.sender = sender with
  | none => exact h
  | some replay =>
      have hmem : replay ∈ hub.replays := List.mem_of_find?_eq_some hfind
      obtain rfl : replay.sender = sender := by simpa using List.find?_some hfind
      obtain ⟨-, hopen, hbacklog⟩ := hconserves.replays replay hmem
      simp only [replayTo_of_isOpen _ hopen]
      refine ⟨fun r hr => ?_, fun other hother => h.pending other (List.mem_filter.1 hother).1⟩
      by_cases hr' : r = replay.sender
      · subst hr'
        simp only [Function.update_self]
        rw [hconserves.pending _ ⟨replay, hmem, rfl⟩, ← hbacklog]
        rcases h.pending replay hmem with hempty | hempty
        · rw [hempty, List.append_nil, List.nil_append]
        · rw [hempty, List.append_nil, List.nil_append]
      · simp only [Function.update_of_ne hr']
        refine h.replayed r fun hpending => hr ?_
        obtain ⟨other, hother, rfl⟩ := hpending
        exact ⟨other, List.mem_filter.2 ⟨hother, by simpa using hr'⟩, rfl⟩

theorem Hub.Ordered.deliver (h : hub.Ordered ledger) (hconserves : hub.Conserves ttl ledger)
    (hundisturbed : ∀ replay ∈ hub.replays, replay.backlog ≠ [] →
      replay.sender ∉ hub.state.receivers hub.channels user) :
    (hub.deliver ttl user event).2.Ordered
      (ledger.send ttl user event (hub.state.receivers hub.channels user)) := by
  have hnodup : (hub.state.receivers hub.channels user).Nodup :=
    HubState.nodup_receivers fun c c' r => hconserves.distinct user c c' r
  have hchannels : (hub.deliver ttl user event).2.channels =
      (hub.state.deliverToActiveConnections hub.channels user event).2.2 := by
    rw [deliver_eq]
    by_cases hempty : hub.state.receivers hub.channels user = []
    · simp only [if_pos hempty]
    · simp only [if_neg hempty]
  have hreplays : (hub.deliver ttl user event).2.replays = hub.replays := by
    rw [deliver_eq]
    by_cases hempty : hub.state.receivers hub.channels user = []
    · simp only [if_pos hempty]
    · simp only [if_neg hempty]
  refine ⟨fun r hr => ?_, fun replay hmem => ?_⟩
  · have hpending : ¬ hub.Pending r := by
      rintro ⟨replay, hmem, heq⟩
      exact hr ⟨replay, hreplays ▸ hmem, heq⟩
    rw [hchannels, HubState.received_deliverToActiveConnections hnodup, taken_send, handed_send,
      h.replayed r hpending]
    split_ifs
    · rw [List.append_assoc]
    · rfl
  · rw [hreplays] at hmem
    rw [handed_send]
    rcases h.pending replay hmem with hempty | hempty
    · exact .inl hempty
    · by_cases hbacklog : replay.backlog = []
      · exact .inl hbacklog
      · rw [if_neg (hundisturbed replay hmem hbacklog)]
        exact .inr hempty

theorem Hub.Ordered.step (h : hub.Ordered ledger) (hconserves : hub.Conserves ttl ledger)
    {call : Nat × HubCall U C E} (hundisturbed : Undisturbed hub call) :
    (hub.step ttl call).2.Ordered (ledger.step ttl hub call) := by
  obtain ⟨elapsed, call⟩ := call
  have hadvance : Hub.Ordered { hub with clock := hub.clock + elapsed } ledger :=
    ⟨h.replayed, h.pending⟩
  have hprune := (hconserves.advance elapsed).prune
  cases call with
  | connect user connectionId => exact (hadvance.prune _).attach hprune
  | replay sender => exact hadvance.replay (hconserves.advance elapsed) sender
  | disconnect user connectionId => exact (hadvance.prune _).detach
  | send user event => exact (hadvance.prune _).deliver hprune hundisturbed
  | prune => exact hadvance.prune _
  | dropReceiver receiver => exact hadvance.dropReceiver receiver

end Steps

/-- The events that a connection has taken, then those handed to it, in the order of the sends. -/
theorem sublist_of_sorted {r : Nat} {user : U} {entries : List (Sent U E)}
    (hsorted : entries.Pairwise fun a b => a.connects ≤ b.connects)
    (htaken : ∀ sent ∈ entries, ∀ e, sent.takenBy r = some e → sent.connects ≤ r ∧ sent.user = user)
    (hhanded : ∀ sent ∈ entries, ∀ e, sent.handedTo r = some e →
      r < sent.connects ∧ sent.user = user) :
    (entries.filterMap (Sent.takenBy r) ++ entries.filterMap (Sent.handedTo r)).Sublist
      ((entries.filter fun sent => sent.user = user).map (·.event)) := by
  have hevent {sent : Sent U E} {e : E}
      (h : sent.takenBy r = some e ∨ sent.handedTo r = some e) : e = sent.event := by
    rcases h with h | h
    · unfold Sent.takenBy at h
      split_ifs at h
      exact (Option.some.inj h).symm
    · unfold Sent.handedTo at h
      split at h
      · split_ifs at h
        exact (Option.some.inj h).symm
      · cases h
  induction entries with
  | nil => exact List.Sublist.refl []
  | cons sent rest ih =>
      obtain ⟨hfirst, hsorted⟩ := List.pairwise_cons.1 hsorted
      have hrest := ih hsorted (fun s hs => htaken s (List.mem_cons_of_mem sent hs))
        fun s hs => hhanded s (List.mem_cons_of_mem sent hs)
      cases htake : sent.takenBy r with
      | some e =>
          have hnone : sent.handedTo r = none := by
            unfold Sent.takenBy at htake
            split_ifs at htake with hfate
            simp [Sent.handedTo, hfate]
          rw [List.filterMap_cons_some htake, List.filterMap_cons_none hnone,
            List.filter_cons_of_pos (by simpa using (htaken sent List.mem_cons_self e htake).2),
            List.map_cons, hevent (.inl htake)]
          exact hrest.cons_cons _
      | none =>
          rw [List.filterMap_cons_none htake]
          cases hhand : sent.handedTo r with
          | some e =>
              obtain ⟨hlt, huser⟩ := hhanded sent List.mem_cons_self e hhand
              -- whatever comes after was sent after the connection was made
              have hnil : rest.filterMap (Sent.takenBy r) = [] := by
                rw [List.filterMap_eq_nil_iff]
                intro later hlater
                by_contra hsome
                obtain ⟨e, he⟩ := Option.ne_none_iff_exists'.1 hsome
                have hle := (htaken later (List.mem_cons_of_mem sent hlater) e he).1
                exact absurd (hlt.trans_le (hfirst later hlater)) hle.not_gt
              rw [hnil, List.nil_append] at hrest ⊢
              rw [List.filterMap_cons_some hhand, List.filter_cons_of_pos (by simpa using huser),
                List.map_cons, hevent (.inr hhand)]
              exact hrest.cons_cons _
          | none =>
              rw [List.filterMap_cons_none hhand]
              by_cases huser : sent.user = user
              · rw [List.filter_cons_of_pos (by simpa using huser), List.map_cons]
                exact hrest.cons _
              · rw [List.filter_cons_of_neg (by simpa using huser)]
                exact hrest

section Runs

variable {ttl : Nat} {user : U} {r : Nat} {hub : Hub U C E} {ledger : Ledger U E}
  {history : List ((Nat × HubCall U C E) × HubReply C)}

omit [LinearOrder C] in
theorem sentTo_eq (hrecords : ledger.Records history) (user : U) : sentTo history user =
    (ledger.entries.filter fun sent => sent.user = user).map (·.event) := by
  rw [sentTo, hrecords.sent, Ledger.reports, List.filter_map, List.map_map]
  rfl

theorem Hub.Ordered.inOrder (h : hub.Ordered ledger) (hconserves : hub.Conserves ttl ledger)
    (hrecords : ledger.Records history) : InOrder history hub := by
  intro user r howner
  rw [hrecords.connected] at howner
  have htaken : ∀ sent ∈ ledger.entries, ∀ e, sent.takenBy r = some e →
      sent.connects ≤ r ∧ sent.user = user := by
    intro sent hsent e he
    unfold Sent.takenBy at he
    split_ifs at he with hfate
    obtain ⟨hle, hsender⟩ := (hconserves.faithful sent hsent).taken r hfate
    exact ⟨hle, Option.some.inj (hsender.symm.trans howner)⟩
  have hhanded : ∀ sent ∈ ledger.entries, ∀ e, sent.handedTo r = some e →
      r < sent.connects ∧ sent.user = user := by
    intro sent hsent e he
    unfold Sent.handedTo at he
    split at he
    · next receivers hfate =>
        split_ifs at he with hmem
        obtain ⟨hlt, hsender⟩ := ((hconserves.faithful sent hsent).handed receivers hfate).2.2 r hmem
        exact ⟨hlt, Option.some.inj (hsender.symm.trans howner)⟩
    · cases he
  have hsublist := sublist_of_sorted hconserves.sorted htaken hhanded
  rw [sentTo_eq hrecords]
  by_cases hpending : hub.Pending r
  · rw [hconserves.pending r hpending]
    exact (List.sublist_append_right _ _).trans hsublist
  · rw [h.replayed r hpending]
    exact hsublist

end Runs

/-- When no event is handed to a connection that is still to be sent a backlog, every channel has
received the events of its user in the order of their sends, and none is missing: a channel that
is not waiting for a replay has received all that its connection took and all that was handed to
it. -/
theorem inOrder_of_undisturbed (ttl : Nat) (calls : List (Nat × HubCall U C E))
    (hcalls : EachCall (Hub.step ttl) Undisturbed Hub.new calls) :
    InOrder (runCalls (Hub.step ttl) Hub.new calls).1
        (runCalls (Hub.step ttl) Hub.new calls).2 ∧
      ∀ r, ¬ (runCalls (Hub.step ttl) Hub.new calls).2.Pending r →
        ((runCalls (Hub.step ttl) Hub.new calls).2.channels r).received =
          (Ledger.after ttl calls).taken r ++ (Ledger.after ttl calls).handed r := by
  have hrun := runCalls_invariant (observed (Hub.step ttl) (Ledger.step ttl))
    (fun history (s : Hub U C E × Ledger U E) =>
      s.1.Conserves ttl s.2 ∧ s.2.Records history ∧ s.1.Ordered s.2)
    (fun s call => Undisturbed s.1 call)
    (fun history s call hcall hinv =>
      ⟨hinv.1.step call, hinv.2.1.step call, hinv.2.2.step hinv.1 hcall⟩)
    ⟨Hub.conserves_new, ⟨rfl, rfl⟩, fun _ _ => rfl,
      fun _ hmem => absurd hmem List.not_mem_nil⟩
    (hcalls.observed (Ledger.step ttl) .new)
  obtain ⟨hhistory, hstate⟩ := runCalls_observed (Hub.step ttl) (Ledger.step ttl)
    ((Hub.new, Ledger.new) : Hub U C E × Ledger U E) calls
  rw [hhistory, hstate] at hrun
  obtain ⟨hconserves, hrecords, hordered⟩ := hrun
  exact ⟨hordered.inOrder hconserves hrecords, hordered.replayed⟩

/-- Two events sent to a user around a connection, the first before it and the second after its
replay. -/
theorem inOrder_of_undisturbed_two :
    let calls : List (Nat × HubCall Nat Nat Nat) :=
      [(0, .send 0 10), (1, .connect 0 0), (0, .replay 0), (2, .send 0 11)]
    let hub := (runCalls (Hub.step 60) Hub.new calls).2
    InOrder (runCalls (Hub.step 60) Hub.new calls).1 hub ∧ (hub.channels 0).received = [10, 11] := by
  intro calls hub
  have hcalls : EachCall (Hub.step 60) Undisturbed Hub.new calls := by
    refine ⟨?_, trivial, trivial, ?_, trivial⟩
    · intro replay hmem
      cases hmem
    · intro replay hmem
      exact absurd hmem List.not_mem_nil
  obtain ⟨hordered, hreceived⟩ := inOrder_of_undisturbed 60 calls hcalls
  refine ⟨hordered, (hreceived 0 ?_).trans (by decide)⟩
  rintro ⟨replay, hmem, -⟩
  exact absurd hmem List.not_mem_nil

/-- An event sent before the replay overtakes the one that is queued. -/
theorem not_inOrder_of_overtaking :
    ¬ InOrder (runCalls (Hub.step 60) Hub.new
        [(0, .send 0 10), (1, .connect 0 0), (0, .send 0 11), (0, .replay 0)]).1
      (runCalls (Hub.step 60) (Hub.new : Hub Nat Nat Nat)
        [(0, .send 0 10), (1, .connect 0 0), (0, .send 0 11), (0, .replay 0)]).2 := by
  intro h
  have hsublist := h 0 0 rfl
  revert hsublist
  decide

end Order

end Evobase
