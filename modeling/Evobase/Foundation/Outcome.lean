import Mathlib.Data.List.Nodup
import Mathlib.Tactic

/-!
# Computations that can stop early

`Exec ε α` is the result of a computation that returns a value, reports an error
of `ε`, aborts at a named site, or is cut off before it returns. `rejectIf` is
the early exit on a condition, and `eachAfter` is the loop over a list whose body
also sees the elements already visited. Every lemma below inverts one of these
at a returned value, so that a chain of checks is taken apart one check at a
time and its definition is never unfolded.
-/

namespace Foundation

/-- How a computation stops before it returns: with an error of the program, with
an abort at a named site, or cut off before it could return. -/
inductive Halt (ε : Type) where
  | fail (error : ε)
  | panic (site : String)
  | diverge
deriving DecidableEq, Repr

abbrev Exec (ε α : Type) := Except (Halt ε) α

namespace Exec

variable {ε ε' α β : Type}

def fail (e : ε) : Exec ε α := .error (.fail e)

def panic (site : String) : Exec ε α := .error (.panic site)

/-- Run a computation whose errors are errors of `ε'` under `wrap`. -/
def lift (wrap : ε → ε') : Exec ε α → Exec ε' α
  | .ok a => .ok a
  | .error (.fail e) => .error (.fail (wrap e))
  | .error (.panic site) => .error (.panic site)
  | .error .diverge => .error .diverge

def ofExcept (wrap : ε → ε') : Except ε α → Exec ε' α
  | .ok a => .ok a
  | .error e => .error (.fail (wrap e))

def expect (site : String) : Option α → Exec ε α
  | some a => .ok a
  | none => .error (.panic site)

@[simp] theorem fail_eq_ok (e : ε) (a : α) : (fail e : Exec ε α) = .ok a ↔ False := by
  simp [fail]

@[simp] theorem panic_eq_ok (site : String) (a : α) :
    (panic site : Exec ε α) = .ok a ↔ False := by
  simp [panic]

@[simp] theorem lift_eq_ok (wrap : ε → ε') (x : Exec ε α) (a : α) :
    lift wrap x = .ok a ↔ x = .ok a := by
  rcases x with (e | site | _) | b <;> simp [lift]

@[simp] theorem lift_eq_fail (wrap : ε → ε') (x : Exec ε α) (e' : ε') :
    lift wrap x = .error (.fail e') ↔ ∃ e, x = .error (.fail e) ∧ wrap e = e' := by
  rcases x with (e | site | _) | b <;> simp [lift]

@[simp] theorem lift_eq_panic (wrap : ε → ε') (x : Exec ε α) (site : String) :
    lift wrap x = .error (.panic site) ↔ x = .error (.panic site) := by
  rcases x with (e | site | _) | b <;> simp [lift]

@[simp] theorem lift_eq_diverge (wrap : ε → ε') (x : Exec ε α) :
    lift wrap x = .error .diverge ↔ x = .error .diverge := by
  rcases x with (e | site | _) | b <;> simp [lift]

@[simp] theorem ofExcept_eq_ok (wrap : ε → ε') (x : Except ε α) (a : α) :
    ofExcept wrap x = .ok a ↔ x = .ok a := by
  cases x <;> simp [ofExcept]

@[simp] theorem ofExcept_eq_error (wrap : ε → ε') (x : Except ε α) (h : Halt ε') :
    ofExcept wrap x = .error h ↔ ∃ e, x = .error e ∧ h = .fail (wrap e) := by
  cases x <;> simp [ofExcept, eq_comm]

@[simp] theorem expect_eq_ok (site : String) (o : Option α) (a : α) :
    (expect site o : Exec ε α) = .ok a ↔ o = some a := by
  cases o <;> simp [expect]

@[simp] theorem expect_eq_error (site : String) (o : Option α) (h : Halt ε) :
    (expect site o : Exec ε α) = .error h ↔ o = none ∧ h = .panic site := by
  cases o <;> simp [expect, eq_comm]

end Exec

variable {ε α β κ : Type}

theorem bind_eq_ok {x : Except ε α} {f : α → Except ε β} {b : β} :
    (x >>= f) = .ok b ↔ ∃ a, x = .ok a ∧ f a = .ok b := by
  cases x <;> simp [bind, Except.bind]

/-- A sequence of two computations stops when the first does, or when it returns
and the second stops. -/
theorem bind_eq_error {x : Except ε α} {f : α → Except ε β} {e : ε} :
    (x >>= f) = .error e ↔ x = .error e ∨ ∃ a, x = .ok a ∧ f a = .error e := by
  cases x <;> simp [bind, Except.bind]

theorem exists_eq_ok {x : Except ε α} (h : x.toBool = true) : ∃ a, x = .ok a := by
  cases x with
  | error e => cases h
  | ok a => exact ⟨a, rfl⟩

@[simp] theorem ok_bind (a : α) (f : α → Except ε β) : ((.ok a : Except ε α) >>= f) = f a := rfl

@[simp] theorem error_bind (e : ε) (f : α → Except ε β) :
    ((.error e : Except ε α) >>= f) = .error e := rfl

@[simp] theorem pure_eq_ok {a b : α} : (pure a : Except ε α) = .ok b ↔ a = b := by
  simp [pure, Except.pure]

@[simp] theorem pure_eq_error {a : α} {e : ε} : (pure a : Except ε α) = .error e ↔ False := by
  simp [pure, Except.pure]

def okOr (e : ε) : Option α → Except ε α
  | some a => .ok a
  | none => .error e

@[simp] theorem okOr_eq_ok {e : ε} {o : Option α} {a : α} : okOr e o = .ok a ↔ o = some a := by
  cases o <;> simp [okOr]

@[simp] theorem okOr_eq_error {e e' : ε} {o : Option α} :
    okOr e o = .error e' ↔ o = none ∧ e = e' := by
  cases o <;> simp [okOr]

def renameError (wrap : ε → κ) : Except ε α → Except κ α
  | .ok a => .ok a
  | .error e => .error (wrap e)

@[simp] theorem renameError_eq_ok {wrap : ε → κ} {x : Except ε α} {a : α} :
    renameError wrap x = .ok a ↔ x = .ok a := by
  cases x <;> simp [renameError]

@[simp] theorem renameError_eq_error {wrap : ε → κ} {x : Except ε α} {e : κ} :
    renameError wrap x = .error e ↔ ∃ e', x = .error e' ∧ wrap e' = e := by
  cases x <;> simp [renameError]

theorem renameError_bind {wrap : ε → κ} {x : Except ε α} {f : α → Except ε β} :
    renameError wrap (x >>= f) = (renameError wrap x >>= fun a => renameError wrap (f a)) := by
  cases x <;> rfl

theorem renameError_foldlM {wrap : ε → κ} {f : β → α → Except ε β} {b : β} {l : List α} :
    renameError wrap (l.foldlM f b) = l.foldlM (fun b a => renameError wrap (f b a)) b := by
  induction l generalizing b with
  | nil => rfl
  | cons a rest ih =>
      rw [List.foldlM_cons, List.foldlM_cons, renameError_bind]
      exact bind_congr fun next => ih

/-- Stop with `e` when `bad` holds. -/
def rejectIf (bad : Prop) [Decidable bad] (e : ε) : Except ε Unit :=
  if bad then .error e else .ok ()

@[simp] theorem rejectIf_eq_ok {bad : Prop} [Decidable bad] {e : ε} {u : Unit} :
    rejectIf bad e = .ok u ↔ ¬ bad := by
  by_cases h : bad <;> simp [rejectIf, h]

@[simp] theorem rejectIf_eq_error {bad : Prop} [Decidable bad] {e e' : ε} :
    rejectIf bad e = .error e' ↔ bad ∧ e = e' := by
  by_cases h : bad <;> simp [rejectIf, h]

theorem rejectIf_bind_of_not {bad : Prop} [Decidable bad] {e : ε} (h : ¬ bad)
    (f : Unit → Except ε β) : (rejectIf bad e >>= f) = f () := by
  simp [rejectIf, h, bind, Except.bind]

theorem rejectIf_bind_eq_ok {bad : Prop} [Decidable bad] {e : ε} {x : Except ε α} {a : α} :
    (do rejectIf bad e; x) = .ok a ↔ ¬ bad ∧ x = .ok a := by
  simp [bind_eq_ok]

/-- Visit the elements of a list in order. The body is given the elements visited
before the current one, in the order of the list. -/
def eachAfter (visit : List α → α → Except ε Unit) : List α → List α → Except ε Unit
  | _, [] => .ok ()
  | before, a :: rest => do
    visit before a
    eachAfter visit (before ++ [a]) rest

@[simp] theorem eachAfter_nil (visit : List α → α → Except ε Unit) (before : List α) :
    eachAfter visit before [] = .ok () := rfl

theorem eachAfter_cons (visit : List α → α → Except ε Unit) (before : List α) (a : α)
    (rest : List α) :
    eachAfter visit before (a :: rest) =
      (visit before a >>= fun _ => eachAfter visit (before ++ [a]) rest) := rfl

/-- The loop returns exactly when its body returns at every element, given the
elements before it. -/
theorem eachAfter_eq_ok_iff {visit : List α → α → Except ε Unit} {before l : List α}
    {u : Unit} :
    eachAfter visit before l = .ok u ↔
      ∀ pre a post, l = pre ++ a :: post → visit (before ++ pre) a = .ok () := by
  induction l generalizing before with
  | nil => simp
  | cons b rest ih =>
      rw [eachAfter_cons, bind_eq_ok]
      constructor
      · rintro ⟨⟨⟩, hb, hrest⟩ pre a post heq
        cases pre with
        | nil =>
            obtain ⟨rfl, rfl⟩ := List.cons.inj heq
            simpa using hb
        | cons c pre =>
            obtain ⟨rfl, rfl⟩ := List.cons.inj heq
            simpa using ih.1 hrest pre a post rfl
      · intro h
        refine ⟨(), by simpa using h [] b rest rfl, ih.2 ?_⟩
        intro pre a post heq
        simpa using h (b :: pre) a post (by simp [heq])

theorem visit_of_eachAfter {visit : List α → α → Except ε Unit} {l : List α} {u : Unit}
    (h : eachAfter visit [] l = .ok u) {a : α} (ha : a ∈ l) :
    ∃ before, visit before a = .ok () := by
  obtain ⟨pre, post, rfl⟩ := List.append_of_mem ha
  exact ⟨pre, by simpa using eachAfter_eq_ok_iff.1 h pre a post rfl⟩

theorem eachAfter_eq_error_iff {visit : List α → α → Except ε Unit} {before l : List α} {e : ε} :
    eachAfter visit before l = .error e ↔
      ∃ pre a post, l = pre ++ a :: post ∧ eachAfter visit before pre = .ok () ∧
        visit (before ++ pre) a = .error e := by
  induction l generalizing before with
  | nil => simp
  | cons b rest ih =>
      rw [eachAfter_cons, bind_eq_error]
      constructor
      · rintro (hb | ⟨⟨⟩, hb, hrest⟩)
        · exact ⟨[], b, rest, rfl, rfl, by simpa using hb⟩
        · obtain ⟨pre, a, post, rfl, hpre, ha⟩ := ih.1 hrest
          refine ⟨b :: pre, a, post, rfl, ?_, by simpa using ha⟩
          rw [eachAfter_cons, hb, ok_bind, hpre]
      · rintro ⟨pre, a, post, heq, hpre, ha⟩
        cases pre with
        | nil =>
            obtain ⟨rfl, rfl⟩ := List.cons.inj heq
            exact .inl (by simpa using ha)
        | cons c pre =>
            obtain ⟨rfl, rfl⟩ := List.cons.inj heq
            rw [eachAfter_cons, bind_eq_ok] at hpre
            obtain ⟨⟨⟩, hb, hpre⟩ := hpre
            exact .inr ⟨(), hb, ih.2 ⟨pre, a, post, rfl, hpre, by simpa using ha⟩⟩

def each (visit : α → Except ε Unit) (l : List α) : Except ε Unit :=
  eachAfter (fun _ => visit) [] l

theorem each_eq_ok_iff {visit : α → Except ε Unit} {l : List α} {u : Unit} :
    each visit l = .ok u ↔ ∀ a ∈ l, visit a = .ok () := by
  rw [each, eachAfter_eq_ok_iff]
  constructor
  · intro h a ha
    obtain ⟨pre, post, rfl⟩ := List.append_of_mem ha
    exact h pre a post rfl
  · rintro h pre a post rfl
    exact h a (by simp)

theorem exists_of_each_eq_error {visit : α → Except ε Unit} {l : List α} {e : ε}
    (h : each visit l = .error e) : ∃ a ∈ l, visit a = .error e := by
  obtain ⟨pre, a, post, rfl, -, ha⟩ := eachAfter_eq_error_iff.1 h
  exact ⟨a, by simp, ha⟩

def rejectAny (l : List α) (bad : α → Prop) [DecidablePred bad] (err : α → ε) : Except ε Unit :=
  each (fun a => rejectIf (bad a) (err a)) l

@[simp] theorem rejectAny_eq_ok {l : List α} {bad : α → Prop} [DecidablePred bad] {err : α → ε}
    {u : Unit} : rejectAny l bad err = .ok u ↔ ∀ a ∈ l, ¬ bad a := by
  simp [rejectAny, each_eq_ok_iff]

theorem exists_of_rejectAny_eq_error {l : List α} {bad : α → Prop} [DecidablePred bad]
    {err : α → ε} {e : ε} (h : rejectAny l bad err = .error e) :
    ∃ a ∈ l, bad a ∧ err a = e := by
  obtain ⟨a, ha, hbad⟩ := exists_of_each_eq_error h
  exact ⟨a, ha, rejectIf_eq_error.1 hbad⟩

/-- A loop whose body rejects a key it has seen before leaves pairwise different
keys. -/
theorem nodup_of_eachAfter {f : List α → α → Except ε Unit} {l : List α} {u : Unit}
    (key : α → κ)
    (fresh : ∀ before a, f before a = .ok () → key a ∉ before.map key)
    (h : eachAfter f [] l = .ok u) : (l.map key).Nodup := by
  suffices general : ∀ before, (before.map key).Nodup → eachAfter f before l = .ok u →
      ((before ++ l).map key).Nodup by
    simpa using general [] (by simp) h
  clear h
  induction l with
  | nil => intro before hnodup _; simpa using hnodup
  | cons a rest ih =>
      intro before hnodup hloop
      rw [eachAfter_cons, bind_eq_ok] at hloop
      obtain ⟨⟨⟩, hvisit, hrest⟩ := hloop
      have hnew : ((before ++ [a]).map key).Nodup := by
        rw [List.map_append, List.nodup_append]
        refine ⟨hnodup, by simp, ?_⟩
        intro k hk k' hk' heq
        obtain rfl : k' = key a := by simpa using hk'
        exact fresh before a hvisit (heq ▸ hk)
      simpa using ih (before ++ [a]) hnew hrest

theorem mapM_eq_ok_iff {f : α → Except ε β} {l : List α} {bs : List β} :
    l.mapM f = .ok bs ↔ List.Forall₂ (fun a b => f a = .ok b) l bs := by
  induction l generalizing bs with
  | nil => rw [List.mapM_nil, pure_eq_ok, List.forall₂_nil_left_iff, eq_comm]
  | cons a rest ih =>
      simp only [List.mapM_cons, bind_eq_ok, pure_eq_ok, ih, List.forall₂_cons_left_iff]
      constructor
      · rintro ⟨b, hb, tail, htail, rfl⟩
        exact ⟨b, tail, hb, htail, rfl⟩
      · rintro ⟨b, tail, hb, htail, rfl⟩
        exact ⟨b, hb, tail, htail, rfl⟩

theorem exists_of_mem_mapM {f : α → Except ε β} {l : List α} {bs : List β}
    (h : l.mapM f = .ok bs) {b : β} (hb : b ∈ bs) : ∃ a ∈ l, f a = .ok b := by
  have hall := mapM_eq_ok_iff.1 h
  clear h
  induction hall with
  | nil => cases hb
  | @cons a c _ _ hhead _ ih =>
      rcases List.mem_cons.1 hb with rfl | hb
      · exact ⟨a, by simp, hhead⟩
      · obtain ⟨a', ha', hf⟩ := ih hb
        exact ⟨a', by simp [ha'], hf⟩

theorem exists_of_mapM_eq_error {f : α → Except ε β} {l : List α} {e : ε}
    (h : l.mapM f = .error e) : ∃ a ∈ l, f a = .error e := by
  induction l with
  | nil => cases h
  | cons a rest ih =>
      simp only [List.mapM_cons, bind_eq_error, pure_eq_error, and_false, exists_false,
        or_false] at h
      rcases h with ha | ⟨-, -, hrest⟩
      · exact ⟨a, by simp, ha⟩
      · obtain ⟨b, hb, herror⟩ := ih hrest
        exact ⟨b, by simp [hb], herror⟩

theorem foldlM_append_eq_mapM {f : α → Except ε β} {skip : α → Bool} {l : List α} {bs : List β} :
    l.foldlM (fun bs a => if skip a then .ok bs else do
      let b ← f a
      .ok (bs ++ [b])) bs =
    (do
      let rest ← (l.filter fun a => !skip a).mapM f
      .ok (bs ++ rest)) := by
  induction l generalizing bs with
  | nil => exact (congrArg Except.ok (List.append_nil bs)).symm
  | cons a rest ih =>
      cases hskip : skip a with
      | true => simp only [List.foldlM_cons, hskip, if_true, ok_bind, ih, Bool.not_true,
          List.filter_cons, Bool.false_eq_true, if_false]
      | false =>
          simp only [List.foldlM_cons, hskip, Bool.false_eq_true, if_false, List.filter_cons,
            Bool.not_false, if_true, List.mapM_cons]
          cases f a with
          | error e => rfl
          | ok b =>
              simp only [ok_bind, ih]
              cases (rest.filter fun a => !skip a).mapM f with
              | error e => rfl
              | ok tail => exact congrArg Except.ok (List.append_assoc bs [b] tail)

/-- A fold whose state after a prefix is known returns exactly when every step is good. -/
theorem foldlM_eq_ok_iff {f : β → α → Except ε β} (state : List α → β) (Good : List α → α → Prop)
    {l : List α} {b : β}
    (hstep : ∀ pre a post, l = pre ++ a :: post → ∀ b,
      f (state pre) a = .ok b ↔ Good pre a ∧ b = state (pre ++ [a])) :
    l.foldlM f (state []) = .ok b ↔
      (∀ pre a post, l = pre ++ a :: post → Good pre a) ∧ b = state l := by
  suffices general : ∀ before rest, l = before ++ rest →
      (rest.foldlM f (state before) = .ok b ↔
        (∀ pre a post, rest = pre ++ a :: post → Good (before ++ pre) a) ∧ b = state l) by
    simpa using general [] l rfl
  intro before rest hl
  induction rest generalizing before with
  | nil =>
      obtain rfl : l = before := by simpa using hl
      rw [List.foldlM_nil, pure_eq_ok]
      simp [eq_comm]
  | cons a rest ih =>
      have htail := ih (before ++ [a]) (by simp [hl])
      simp only [List.foldlM_cons, bind_eq_ok, hstep before a rest hl]
      constructor
      · rintro ⟨_, ⟨hgood, rfl⟩, hrest⟩
        obtain ⟨hall, rfl⟩ := htail.1 hrest
        refine ⟨fun pre c post heq => ?_, rfl⟩
        cases pre with
        | nil =>
            obtain ⟨rfl, rfl⟩ := List.cons.inj heq
            simpa using hgood
        | cons d pre =>
            obtain ⟨rfl, rfl⟩ := List.cons.inj heq
            simpa using hall pre c post rfl
      · rintro ⟨hall, rfl⟩
        refine ⟨_, ⟨by simpa using hall [] a rest rfl, rfl⟩, htail.2 ⟨fun pre c post heq => ?_, rfl⟩⟩
        simpa using hall (a :: pre) c post (by simp [heq])

def Yields (post : α → Prop) (stop : ε → Prop) : Except ε α → Prop
  | .ok a => post a
  | .error e => stop e

section Yields

variable {post : α → Prop} {stop : ε → Prop}

@[simp] theorem yields_ok (a : α) : Yields post stop (.ok a) ↔ post a := Iff.rfl

@[simp] theorem yields_error (e : ε) : Yields post stop (.error e) ↔ stop e := Iff.rfl

theorem Yields.of_ok {x : Except ε α} (h : Yields post stop x) {a : α} (hx : x = .ok a) : post a := by
  rwa [hx, yields_ok] at h

theorem Yields.eq {x : Except ε α} (h : Yields post stop x) :
    Yields (fun a => x = .ok a) stop x := by
  cases x with
  | ok a => rfl
  | error e => exact h

theorem yields_of_ok {x : Except ε α} (h : ∀ a, x = .ok a → post a) :
    Yields post (fun _ => True) x := by
  cases x with
  | ok a => exact h a rfl
  | error e => trivial

theorem Yields.exists_eq_ok {x : Except ε α} (h : Yields post (fun _ => False) x) :
    ∃ a, x = .ok a ∧ post a := by
  cases x with
  | ok a => exact ⟨a, rfl, h⟩
  | error e => exact h.elim

theorem Yields.mono {post' : α → Prop} {stop' : ε → Prop} {x : Except ε α}
    (h : Yields post stop x) (hpost : ∀ a, post a → post' a) (hstop : ∀ e, stop e → stop' e) :
    Yields post' stop' x := by
  cases x with
  | ok a => exact hpost a h
  | error e => exact hstop e h

theorem Yields.bind {M : β → Prop} {x : Except ε β} {f : β → Except ε α}
    (hx : Yields M stop x) (hf : ∀ b, M b → Yields post stop (f b)) :
    Yields post stop (x >>= f) := by
  cases x with
  | ok b => exact hf b hx
  | error e => exact hx

theorem yields_rejectIf {bad : Prop} [Decidable bad] {e : ε} (h : stop e) :
    Yields (fun _ => ¬ bad) stop (rejectIf bad e) := by
  unfold rejectIf
  split_ifs with hbad
  · exact h
  · exact hbad

theorem yields_okOr {e : ε} {o : Option α} (h : stop e) :
    Yields (fun a => o = some a) stop (okOr e o) := by
  cases o with
  | none => exact h
  | some a => rfl

/-- A fold keeps a property of the elements visited and the state. -/
theorem Yields.foldlM {f : β → α → Except ε β} {l : List α} {b : β} {I : List α → β → Prop}
    (hstart : I [] b)
    (hstep : ∀ pre a post, l = pre ++ a :: post → ∀ b, I pre b →
      Yields (I (pre ++ [a])) stop (f b a)) : Yields (I l) stop (l.foldlM f b) := by
  suffices general : ∀ before rest, l = before ++ rest → ∀ b, I before b →
      Yields (I l) stop (rest.foldlM f b) by
    exact general [] l rfl b hstart
  intro before rest hl b hinv
  induction rest generalizing before b with
  | nil =>
      obtain rfl : l = before := by simpa using hl
      exact hinv
  | cons a rest ih =>
      rw [List.foldlM_cons]
      exact (hstep before a rest hl b hinv).bind fun c hc =>
        ih (before ++ [a]) (by simp [hl]) c hc

theorem inv_of_foldlM {f : β → α → Except ε β} {l : List α} {b out : β}
    (I : List α → β → Prop) (h : l.foldlM f b = .ok out) (hstart : I [] b)
    (hstep : ∀ pre a post, l = pre ++ a :: post → ∀ b c, I pre b → f b a = .ok c →
      I (pre ++ [a]) c) : I l out :=
  (Yields.foldlM hstart fun pre a post hl b hb =>
    yields_of_ok fun c hc => hstep pre a post hl b c hb hc).of_ok h

end Yields

/-- Both computations return, with related results, or both fail with the same error. -/
def Agree (rel : α → β → Prop) : Except ε α → Except ε β → Prop
  | .ok a, .ok b => rel a b
  | .error e, .error e' => e = e'
  | _, _ => False

theorem Agree.bind_eq {γ : Type} {rel : α → β → Prop} {x : Except ε α} {y : Except ε β}
    (h : Agree rel x y) {f : α → Except ε γ} {g : β → Except ε γ}
    (hstep : ∀ a b, x = .ok a → rel a b → f a = g b) : (x >>= f) = (y >>= g) := by
  cases x <;> cases y
  · obtain rfl : _ = _ := h
    rfl
  · exact h.elim
  · exact h.elim
  · exact hstep _ _ rfl h

theorem bind_congr_ok {x : Except ε α} {f g : α → Except ε β} (h : ∀ a, x = .ok a → f a = g a) :
    (x >>= f) = (x >>= g) := by
  cases x with
  | ok a => exact h a rfl
  | error e => rfl

theorem exists_error_bind {x : Except ε α} {f g : α → Except ε β}
    (h : ∀ a, x = .ok a → ∃ e, f a = .error e ∧ g a = .error e) :
    ∃ e, (x >>= f) = .error e ∧ (x >>= g) = .error e := by
  cases x with
  | ok a => exact h a rfl
  | error e => exact ⟨e, rfl, rfl⟩

theorem foldlM_eq_of_forall₂ {γ : Type} {rel : α → γ → Prop} {f : β → α → Except ε β}
    {g : β → γ → Except ε β} {l : List α} {m : List γ} (h : List.Forall₂ rel l m)
    (hstep : ∀ b a c, rel a c → f b a = g b c) (b : β) : l.foldlM f b = m.foldlM g b := by
  induction h generalizing b with
  | nil => rfl
  | @cons a c _ _ hac _ ih =>
      rw [List.foldlM_cons, List.foldlM_cons, hstep b a c hac]
      exact congrArg _ (funext ih)

theorem forall₂_of_map_eq {γ : Type} {rel : α → β → Prop} {f : α → γ} {g : β → γ} {l : List α}
    {m : List β} (h : l.map f = m.map g) (hrel : ∀ a ∈ l, ∀ b ∈ m, f a = g b → rel a b) :
    List.Forall₂ rel l m := by
  induction l generalizing m with
  | nil =>
      obtain rfl := List.map_eq_nil_iff.1 h.symm
      exact .nil
  | cons a l ih =>
      obtain ⟨b, m, rfl, hhead, htail⟩ := List.map_eq_cons_iff.1 h.symm
      refine .cons (hrel a (by simp) b (by simp) hhead.symm) (ih htail.symm fun c hc d hd => ?_)
      exact hrel c (by simp [hc]) d (by simp [hd])

theorem map_eq_map_of_forall₂ {γ : Type} {R : α → β → Prop} {f : α → γ} {g : β → γ}
    (hkey : ∀ a b, R a b → f a = g b) {l : List α} {m : List β} (h : List.Forall₂ R l m) :
    l.map f = m.map g := by
  rw [← List.forall₂_eq_eq_eq, List.forall₂_map_left_iff, List.forall₂_map_right_iff]
  exact h.imp hkey

theorem forall₂_find? {R : α → β → Prop} {p : α → Bool} {q : β → Bool}
    (hpq : ∀ a b, R a b → p a = q b) {l : List α} {m : List β} (h : List.Forall₂ R l m) :
    Option.Rel R (l.find? p) (m.find? q) := by
  induction h with
  | nil => exact .none
  | @cons a b l m hab _ ih =>
      rw [List.find?_cons, List.find?_cons, ← hpq a b hab]
      cases p a
      · exact ih
      · exact .some hab

theorem exists_forall₂ {R : α → β → Prop} {l : List α} (h : ∀ a ∈ l, ∃ b, R a b) :
    ∃ m, List.Forall₂ R l m := by
  induction l with
  | nil => exact ⟨[], .nil⟩
  | cons a rest ih =>
      obtain ⟨b, hb⟩ := h a List.mem_cons_self
      obtain ⟨m, hm⟩ := ih fun c hc => h c (List.mem_cons_of_mem a hc)
      exact ⟨b :: m, .cons hb hm⟩

theorem forall₂_comp {γ : Type} {R : α → β → Prop} {S : β → γ → Prop} {T : α → γ → Prop}
    (hT : ∀ a b c, R a b → S b c → T a c) {l : List α} {m : List β} {n : List γ}
    (h : List.Forall₂ R l m) (h' : List.Forall₂ S m n) : List.Forall₂ T l n := by
  induction h generalizing n with
  | nil =>
      obtain rfl := List.forall₂_nil_left_iff.1 h'
      exact .nil
  | cons hhead _ ih =>
      cases h' with
      | cons hhead' htail' => exact .cons (hT _ _ _ hhead hhead') (ih htail')

theorem exists_mem_zip_of_forall₂ {R : α → β → Prop} {l : List α} {m : List β}
    (h : List.Forall₂ R l m) {a : α} (ha : a ∈ l) : ∃ b, (a, b) ∈ l.zip m := by
  induction h with
  | nil => cases ha
  | @cons _ b _ _ _ _ ih =>
      rcases List.mem_cons.1 ha with rfl | ha
      · exact ⟨b, by simp⟩
      · obtain ⟨c, hc⟩ := ih ha
        exact ⟨c, List.mem_cons_of_mem _ hc⟩

/-- The first computation has run out of its bound, or it gives what the second one does. -/
def Approximates (x y : Exec ε α) : Prop := x = .error .diverge ∨ x = y

namespace Approximates

@[refl] theorem refl (x : Exec ε α) : Approximates x x := .inr rfl

theorem diverge (y : Exec ε α) : Approximates (.error .diverge) y := .inl rfl

theorem eq_of_ne {x y : Exec ε α} (h : Approximates x y) (hne : x ≠ .error .diverge) : x = y :=
  h.resolve_left hne

theorem bind {x y : Exec ε β} {f g : β → Exec ε α} (hx : Approximates x y)
    (hf : ∀ b, Approximates (f b) (g b)) : Approximates (x >>= f) (y >>= g) := by
  rcases hx with rfl | rfl
  · exact .inl rfl
  · cases x with
    | ok b => exact hf b
    | error e => exact .inr rfl

theorem foldlM {f g : β → α → Exec ε β} {l : List α}
    (hstep : ∀ b a, Approximates (f b a) (g b a)) (b : β) :
    Approximates (l.foldlM f b) (l.foldlM g b) := by
  induction l generalizing b with
  | nil => exact refl _
  | cons a l ih =>
      rw [List.foldlM_cons, List.foldlM_cons]
      exact (hstep b a).bind ih

theorem each {f g : α → Exec ε Unit} (hstep : ∀ a, Approximates (f a) (g a)) (l : List α) :
    Approximates (Foundation.each f l) (Foundation.each g l) := by
  suffices general : ∀ before, Approximates (eachAfter (fun _ => f) before l)
      (eachAfter (fun _ => g) before l) from general []
  induction l with
  | nil => exact fun _ => refl _
  | cons a l ih => exact fun before => (hstep a).bind fun _ => ih _

end Approximates

end Foundation
