import Mathlib.Data.List.Basic

/-!
# Runs of a machine that answers calls

A machine takes a state and a call to a reply and a state. A run keeps the history of
its calls with their replies. A property of history and state that every allowed call
preserves holds after every run of allowed calls (`run_induction`), and a machine that another one
follows step by step answers as it does (`runCalls_simulation`). A machine whose actions may
not be enabled runs while they are (`runActions`), and an observer may note what they do
(`observeActions`). Logs grow at their end: what holds of every
entry and the entries before it is kept by a new entry for which it holds (`EachEntry.append`), and
the last entry with a value is the new one when it has a value (`latest_append_singleton`).
-/

namespace Foundation

section Log

variable {α : Type} {P : List α → α → Prop} {log : List α} {a : α}

def EachEntry (P : List α → α → Prop) (log : List α) : Prop :=
  ∀ before a after, log = before ++ a :: after → P before a

theorem eachEntry_nil : EachEntry P [] := by
  intro before a after h
  simp at h

theorem EachEntry.append (h : EachEntry P log) (hlast : P log a) : EachEntry P (log ++ [a]) := by
  intro before b after heq
  rcases List.eq_nil_or_concat after with rfl | ⟨after, c, rfl⟩
  · obtain ⟨rfl, hb⟩ := List.append_inj' heq rfl
    exact List.singleton_inj.1 hb ▸ hlast
  · have hsplit : log ++ [a] = (before ++ b :: after) ++ [c] := by simpa using heq
    exact h before b after (List.append_inj' hsplit rfl).1

theorem EachEntry.left {more : List α} (h : EachEntry P (log ++ more)) : EachEntry P log := by
  intro before a after heq
  exact h before a (after ++ more) (by rw [heq, List.append_assoc, List.cons_append])

theorem EachEntry.of_mem (h : EachEntry P log) (ha : a ∈ log) : ∃ before, P before a := by
  obtain ⟨before, after, rfl⟩ := List.append_of_mem ha
  exact ⟨before, h before a after rfl⟩

theorem EachEntry.getElem (h : EachEntry P log) {i : Nat} (hi : i < log.length) :
    P (log.take i) log[i] :=
  h _ _ (log.drop (i + 1)) (by rw [List.getElem_cons_drop, List.take_append_drop])

def latest {β : Type} (f : α → Option β) (log : List α) : Option β := log.reverse.findSome? f

section Latest

variable {β : Type} {f : α → Option β} {b : β}

@[simp] theorem latest_nil : latest f [] = none := rfl

@[simp] theorem latest_append_singleton : latest f (log ++ [a]) = (f a).or (latest f log) := by
  rw [latest, List.reverse_append, List.reverse_singleton, List.singleton_append,
    List.findSome?_cons]
  cases f a <;> rfl

theorem latest_append (more : List α) :
    latest f (log ++ more) = (latest f more).or (latest f log) := by
  rw [latest, List.reverse_append, List.findSome?_append]
  rfl

theorem exists_of_latest (h : latest f log = some b) :
    ∃ before a after, log = before ++ a :: after ∧ f a = some b := by
  obtain ⟨a, ha, hvalue⟩ := List.exists_of_findSome?_eq_some h
  obtain ⟨before, after, hlog⟩ := List.append_of_mem (List.mem_reverse.1 ha)
  exact ⟨before, a, after, hlog, hvalue⟩

end Latest

theorem EachEntry.map_eq_range {number : α → Int} {k : Nat}
    (h : EachEntry (fun before a => number a = before.length + k) log) :
    log.map number = (List.range log.length).map fun i : Nat => (i : Int) + k := by
  refine List.ext_getElem (by rw [List.length_map, List.length_map, List.length_range])
    fun i hi _ => ?_
  rw [List.length_map] at hi
  rw [List.getElem_map, List.getElem_map, List.getElem_range, h.getElem hi, List.length_take,
    Nat.min_eq_left (Nat.le_of_lt hi)]

end Log

variable {S C R : Type}

/-- The history of the calls with their replies, and the state after them. -/
def runCalls (step : S → C → R × S) (s : S) : List C → List (C × R) × S
  | [] => ([], s)
  | c :: rest =>
      let (reply, next) := step s c
      let (history, last) := runCalls step next rest
      ((c, reply) :: history, last)

@[simp] theorem runCalls_nil (step : S → C → R × S) (s : S) : runCalls step s [] = ([], s) := rfl

theorem runCalls_cons (step : S → C → R × S) (s : S) (c : C) (rest : List C) :
    runCalls step s (c :: rest) =
      ((c, (step s c).1) :: (runCalls step (step s c).2 rest).1,
        (runCalls step (step s c).2 rest).2) := rfl

/-- What every allowed call preserves holds after a run. -/
theorem run_induction {step : S → C → R × S} {Allowed : C → Prop}
    {Inv : List (C × R) → S → Prop}
    (hstep : ∀ history s c, Allowed c → Inv history s →
      Inv (history ++ [(c, (step s c).1)]) (step s c).2)
    {history : List (C × R)} {s : S} (hstart : Inv history s) {calls : List C}
    (hcalls : ∀ c ∈ calls, Allowed c) :
    Inv (history ++ (runCalls step s calls).1) (runCalls step s calls).2 := by
  induction calls generalizing history s with
  | nil => simpa using hstart
  | cons c rest ih =>
      have hnext := hstep history s c (hcalls c List.mem_cons_self) hstart
      have hrest := ih hnext fun d hd => hcalls d (List.mem_cons_of_mem c hd)
      rw [List.append_assoc, List.singleton_append] at hrest
      exact hrest

/-- A condition on every call of a run and the state before it. -/
def EachCall (step : S → C → R × S) (P : S → C → Prop) (s : S) : List C → Prop
  | [] => True
  | c :: rest => P s c ∧ EachCall step P (step s c).2 rest

theorem eachCall_of_forall {step : S → C → R × S} {P : S → C → Prop} (h : ∀ s c, P s c) (s : S)
    (calls : List C) : EachCall step P s calls := by
  induction calls generalizing s with
  | nil => trivial
  | cons c rest ih => exact ⟨h s c, ih _⟩

theorem EachCall.mem {step : S → C → R × S} {P : S → C → Prop} {s : S} {calls : List C}
    (h : EachCall step P s calls) : EachCall step (fun s c => P s c ∧ c ∈ calls) s calls := by
  suffices general : ∀ (all : List C) (s : S), calls ⊆ all → EachCall step P s calls →
      EachCall step (fun s c => P s c ∧ c ∈ all) s calls by
    exact general calls s (List.Subset.refl _) h
  intro all
  clear h s
  induction calls with
  | nil => exact fun _ _ _ => trivial
  | cons c rest ih =>
      intro s hall h
      obtain ⟨hc, hrest⟩ := List.cons_subset.1 hall
      exact ⟨⟨h.1, hc⟩, ih _ hrest h.2⟩

/-- What every call that meets a condition preserves holds after a run of such calls. -/
theorem runCalls_invariant (step : S → C → R × S) {s : S} {calls : List C}
    (Inv : List (C × R) → S → Prop) (P : S → C → Prop)
    (hstep : ∀ history s c, P s c → Inv history s →
      Inv (history ++ [(c, (step s c).1)]) (step s c).2)
    (hstart : Inv [] s) (hcalls : EachCall step P s calls) :
    Inv (runCalls step s calls).1 (runCalls step s calls).2 := by
  suffices general : ∀ history s, Inv history s → EachCall step P s calls →
      Inv (history ++ (runCalls step s calls).1) (runCalls step s calls).2 by
    exact general [] s hstart hcalls
  clear hstart hcalls s
  induction calls with
  | nil =>
      intro history s hinv _
      simpa using hinv
  | cons c rest ih =>
      intro history s hinv hcalls
      have hrest := ih _ _ (hstep history s c hcalls.1 hinv) hcalls.2
      rwa [List.append_assoc, List.singleton_append] at hrest

/-- Machines in related states whose calls have equal replies, and lead to related states, answer a
run alike. -/
theorem runCalls_simulation {T : Type} {step : S → C → R × S} {step' : T → C → R × T}
    (Rel : S → T → Prop) (P : S → C → Prop)
    (hstep : ∀ s t c, P s c → Rel s t →
      (step s c).1 = (step' t c).1 ∧ Rel (step s c).2 (step' t c).2)
    {s : S} {t : T} (hstart : Rel s t) {calls : List C} (hcalls : EachCall step P s calls) :
    (runCalls step s calls).1 = (runCalls step' t calls).1 ∧
      Rel (runCalls step s calls).2 (runCalls step' t calls).2 := by
  induction calls generalizing s t with
  | nil => exact ⟨rfl, hstart⟩
  | cons c rest ih =>
      obtain ⟨hreply, hnext⟩ := hstep s t c hcalls.1 hstart
      obtain ⟨hhistory, hlast⟩ := ih hnext hcalls.2
      rw [runCalls_cons, runCalls_cons, hreply, hhistory]
      exact ⟨rfl, hlast⟩

/-- A machine with an observer, who sees the state before each call. -/
def observed {G : Type} (step : S → C → R × S) (observe : S → G → C → G) (s : S × G) (c : C) :
    R × (S × G) :=
  ((step s.1 c).1, (step s.1 c).2, observe s.1 s.2 c)

theorem runCalls_observed {G : Type} (step : S → C → R × S) (observe : S → G → C → G) (s : S × G)
    (calls : List C) :
    (runCalls (observed step observe) s calls).1 = (runCalls step s.1 calls).1 ∧
      (runCalls (observed step observe) s calls).2.1 = (runCalls step s.1 calls).2 := by
  induction calls generalizing s with
  | nil => exact ⟨rfl, rfl⟩
  | cons c rest ih =>
      obtain ⟨hhistory, hstate⟩ := ih (observed step observe s c).2
      exact ⟨congrArg (List.cons _) hhistory, hstate⟩

theorem EachCall.observed {G : Type} {step : S → C → R × S} {P : S → C → Prop} {s : S}
    {calls : List C} (h : EachCall step P s calls) (observe : S → G → C → G) (g : G) :
    EachCall (observed step observe) (fun s c => P s.1 c) (s, g) calls := by
  induction calls generalizing s g with
  | nil => trivial
  | cons c rest ih => exact ⟨h.1, ih h.2 _⟩

section Actions

variable {A : Type} {step : S → A → Option S} {s t : S} {actions more : List A}

/-- The state after actions, when each is enabled where it is taken. -/
def runActions (step : S → A → Option S) (s : S) (actions : List A) : Option S :=
  actions.foldlM step s

@[simp] theorem runActions_nil : runActions step s [] = some s := rfl

theorem runActions_cons_eq_some {a : A} :
    runActions step s (a :: actions) = some t ↔
      ∃ next, step s a = some next ∧ runActions step next actions = some t := by
  rw [runActions, List.foldlM_cons]
  exact Option.bind_eq_some_iff

theorem runActions_induction (Inv : List A → S → Prop) (before : List A)
    (hstep : ∀ before s a t, Inv before s → step s a = some t → Inv (before ++ [a]) t)
    (hstart : Inv before s) (h : runActions step s actions = some t) :
    Inv (before ++ actions) t := by
  induction actions generalizing before s with
  | nil =>
      obtain rfl := Option.some.inj h
      simpa using hstart
  | cons a actions ih =>
      obtain ⟨next, hnext, hrest⟩ := runActions_cons_eq_some.1 h
      have hlast := ih (before ++ [a]) (hstep before s a next hstart hnext) hrest
      rwa [List.append_assoc, List.singleton_append] at hlast

theorem runActions_invariant (Inv : S → Prop)
    (hstep : ∀ s a t, Inv s → step s a = some t → Inv t) (hstart : Inv s)
    (h : runActions step s actions = some t) : Inv t :=
  runActions_induction (fun _ => Inv) [] (fun _ s a t => hstep s a t) hstart h

/-- A condition on every action of a run and the state before it. -/
def EachAction (step : S → A → Option S) (P : S → A → Prop) (s : S) : List A → Prop
  | [] => True
  | a :: rest => P s a ∧ ∀ next, step s a = some next → EachAction step P next rest

theorem eachAction_cons_iff {P : S → A → Prop} {a : A} {next : S} (h : step s a = some next) :
    EachAction step P s (a :: actions) ↔ P s a ∧ EachAction step P next actions := by
  simp [EachAction, h]

theorem eachAction_append_iff {P : S → A → Prop} (h : runActions step s actions = some t) :
    EachAction step P s (actions ++ more) ↔ EachAction step P s actions ∧ EachAction step P t more := by
  induction actions generalizing s with
  | nil =>
      obtain rfl := Option.some.inj h
      simp [EachAction]
  | cons a rest ih =>
      obtain ⟨next, hnext, hrest⟩ := runActions_cons_eq_some.1 h
      rw [List.cons_append, eachAction_cons_iff hnext, eachAction_cons_iff hnext, ih hrest, and_assoc]

/-- What every enabled action that meets a condition preserves, together with the actions before it,
holds after a run of such actions. -/
theorem runActions_induction_of_each {P : S → A → Prop} (Inv : List A → S → Prop) (before : List A)
    (hstep : ∀ before s a t, P s a → Inv before s → step s a = some t → Inv (before ++ [a]) t)
    (hstart : Inv before s) (hactions : EachAction step P s actions)
    (h : runActions step s actions = some t) : Inv (before ++ actions) t := by
  induction actions generalizing before s with
  | nil =>
      obtain rfl := Option.some.inj h
      simpa using hstart
  | cons a rest ih =>
      obtain ⟨next, hnext, hrest⟩ := runActions_cons_eq_some.1 h
      obtain ⟨hfirst, hlater⟩ := (eachAction_cons_iff hnext).1 hactions
      have hlast := ih (before ++ [a]) (hstep before s a next hfirst hstart hnext) hlater hrest
      rwa [List.append_assoc, List.singleton_append] at hlast

/-- What an observer, who sees the state before each action, has noted after a run. -/
def observeActions {G : Type} (step : S → A → Option S) (observe : S → G → A → G) (s : S) (g : G) :
    List A → G
  | [] => g
  | a :: rest =>
      match step s a with
      | some next => observeActions step observe next (observe s g a) rest
      | none => g

section Observer

variable {G : Type} {observe : S → G → A → G} {g : G} {Inv : S → G → Prop}

theorem observeActions_cons {a : A} {next : S} (h : step s a = some next) :
    observeActions step observe s g (a :: actions) =
      observeActions step observe next (observe s g a) actions := by
  rw [observeActions, h]

theorem observeActions_invariant
    (hstep : ∀ s g a t, Inv s g → step s a = some t → Inv t (observe s g a)) (hstart : Inv s g)
    (h : runActions step s actions = some t) : Inv t (observeActions step observe s g actions) := by
  induction actions generalizing s g with
  | nil =>
      obtain rfl := Option.some.inj h
      exact hstart
  | cons a rest ih =>
      obtain ⟨next, hnext, hrest⟩ := runActions_cons_eq_some.1 h
      rw [observeActions_cons hnext]
      exact ih (hstep s g a next hstart hnext) hrest

/-- A fault that is noted when an action breaks a condition, and is never taken back, is not noted
in a run exactly when every action meets the condition. -/
theorem not_observeActions_iff {Fault : G → Prop} {P : S → A → Prop}
    (hstep : ∀ s g a t, Inv s g → step s a = some t → Inv t (observe s g a))
    (hfault : ∀ s g a t, Inv s g → step s a = some t →
      (Fault (observe s g a) ↔ Fault g ∨ ¬ P s a))
    (hstart : Inv s g) (h : runActions step s actions = some t) :
    ¬ Fault (observeActions step observe s g actions) ↔
      ¬ Fault g ∧ EachAction step P s actions := by
  induction actions generalizing s g with
  | nil => simp [observeActions, EachAction]
  | cons a rest ih =>
      obtain ⟨next, hnext, hrest⟩ := runActions_cons_eq_some.1 h
      rw [observeActions_cons hnext, ih (hstep s g a next hstart hnext) hrest,
        hfault s g a next hstart hnext, eachAction_cons_iff hnext, not_or, not_not, and_assoc]

end Observer

end Actions

end Foundation
