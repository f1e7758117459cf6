import Mathlib.Order.Basic
import Mathlib.Tactic

/-!
# Machine integers

`Bounded lo hi` is an integer together with the proof that it lies between `lo`
and `hi`. Arithmetic is the exact arithmetic of the integers followed by the
range check of `ofInt?`, so an overflow is the absence of a value.
-/

namespace Foundation

/-- An integer between `lo` and `hi`. -/
structure Bounded (lo hi : Int) where
  val : Int
  lower : lo ≤ val
  upper : val ≤ hi
deriving DecidableEq, Repr

abbrev I64 := Bounded (-9223372036854775808) 9223372036854775807

abbrev U64 := Bounded 0 18446744073709551615

abbrev U32 := Bounded 0 4294967295

def I64.zero : I64 := ⟨0, by decide, by decide⟩

def I64.one : I64 := ⟨1, by decide, by decide⟩

def U64.one : U64 := ⟨1, by decide, by decide⟩

def U32.one : U32 := ⟨1, by decide, by decide⟩

@[simp] theorem I64.one_val : I64.one.val = 1 := rfl

@[simp] theorem U64.one_val : U64.one.val = 1 := rfl

@[simp] theorem U32.one_val : U32.one.val = 1 := rfl

theorem I64.min_le_zero : (-9223372036854775808 : Int) ≤ 0 := by decide

theorem U64.max_le_max : (18446744073709551615 : Int) ≤ 18446744073709551615 := le_rfl

theorem U64.zero_le_max : (0 : Int) ≤ 18446744073709551615 := by decide

def U64.max : U64 := ⟨18446744073709551615, U64.zero_le_max, U64.max_le_max⟩

def I64.InRange (z : Int) : Prop := -9223372036854775808 ≤ z ∧ z ≤ 9223372036854775807

instance (z : Int) : Decidable (I64.InRange z) := inferInstanceAs (Decidable (_ ∧ _))

theorem I64.inRange_val (a : I64) : I64.InRange a.val := ⟨a.lower, a.upper⟩

namespace Bounded

variable {lo hi lo' hi' : Int}

@[ext] theorem ext_val {a b : Bounded lo hi} (h : a.val = b.val) : a = b := by
  cases a; cases b; simpa using h

/-- The integer of a value, when it is in range. -/
def ofInt? (z : Int) : Option (Bounded lo hi) :=
  if h : lo ≤ z ∧ z ≤ hi then some ⟨z, h.1, h.2⟩ else none

def widen (hlo : lo' ≤ lo) (hhi : hi ≤ hi') (a : Bounded lo hi) : Bounded lo' hi' :=
  ⟨a.val, hlo.trans a.lower, a.upper.trans hhi⟩

def checkedAdd (a b : Bounded lo hi) : Option (Bounded lo hi) := ofInt? (a.val + b.val)

def checkedMul (a b : Bounded lo hi) : Option (Bounded lo hi) := ofInt? (a.val * b.val)

theorem ofInt?_eq_some {z : Int} {a : Bounded lo hi} : ofInt? z = some a ↔ a.val = z := by
  unfold ofInt?
  split_ifs with h
  · constructor
    · rintro h'
      obtain rfl := Option.some.inj h'
      rfl
    · rintro rfl
      rfl
  · refine ⟨fun h' => absurd h' (by simp), ?_⟩
    rintro rfl
    exact h ⟨a.lower, a.upper⟩

theorem ofInt?_eq_none {z : Int} : (ofInt? z : Option (Bounded lo hi)) = none ↔ ¬ (lo ≤ z ∧ z ≤ hi) := by
  unfold ofInt?
  split_ifs with h <;> simp [h]

@[simp] theorem ofInt?_val (a : Bounded lo hi) : ofInt? a.val = some a :=
  ofInt?_eq_some.2 rfl

@[simp] theorem val_widen (hlo : lo' ≤ lo) (hhi : hi ≤ hi') (a : Bounded lo hi) :
    (a.widen hlo hhi).val = a.val := rfl

theorem checkedAdd_eq_some {a b c : Bounded lo hi} :
    a.checkedAdd b = some c ↔ c.val = a.val + b.val :=
  ofInt?_eq_some

theorem checkedMul_eq_some {a b c : Bounded lo hi} :
    a.checkedMul b = some c ↔ c.val = a.val * b.val :=
  ofInt?_eq_some

theorem checkedAdd_eq_none {a b : I64} : a.checkedAdd b = none ↔ ¬ I64.InRange (a.val + b.val) :=
  ofInt?_eq_none

theorem checkedMul_eq_none {a b : I64} : a.checkedMul b = none ↔ ¬ I64.InRange (a.val * b.val) :=
  ofInt?_eq_none

end Bounded

end Foundation
