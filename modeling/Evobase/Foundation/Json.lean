import Evobase.Foundation.Bounded
import Evobase.Foundation.OrdMap
import Mathlib.Data.String.Basic
import Mathlib.Tactic

/-!
# JSON values and their compact text

`Json` keeps the members of an object in the order of the text, repeated names
included. `print` is the compact UTF-8 text of a value, without whitespace and
with the shortest escapes. `nodes` counts the tokens that start a value or a
member name and `depth` the nesting of containers. `sortKeys` is the value as a
tree with one member for each name, in name order.
-/

namespace Foundation

/-- An integer that a 64-bit reader keeps exactly, signed or unsigned. -/
abbrev JsonInt := Bounded (-9223372036854775808) 18446744073709551615

/-- A JSON value. A number outside `JsonInt` is kept as its literal. -/
inductive Json where
  | null
  | bool (value : Bool)
  | int (value : JsonInt)
  | real (literal : String)
  | str (value : String)
  | arr (elements : List Json)
  | obj (members : List (String × Json))
deriving Repr

namespace Json

/-- Induction on a value, with the hypothesis for every element and every member. -/
@[elab_as_elim] theorem induct {motive : Json → Prop} (null : motive .null)
    (bool : ∀ b, motive (.bool b)) (int : ∀ n, motive (.int n))
    (real : ∀ s, motive (.real s)) (str : ∀ s, motive (.str s))
    (arr : ∀ elements, (∀ j ∈ elements, motive j) → motive (.arr elements))
    (obj : ∀ members, (∀ m ∈ members, motive m.2) → motive (.obj members)) :
    ∀ j, motive j
  | .null => null
  | .bool b => bool b
  | .int n => int n
  | .real s => real s
  | .str s => str s
  | .arr elements => arr elements fun j _hj => induct null bool int real str arr obj j
  | .obj members => obj members fun m _hm => induct null bool int real str arr obj m.2
termination_by j => sizeOf j
decreasing_by
  · have := List.sizeOf_lt_of_mem _hj
    simp only [Json.arr.sizeOf_spec]
    omega
  · have := List.sizeOf_lt_of_mem _hm
    obtain ⟨name, value⟩ := m
    simp only [Json.obj.sizeOf_spec, Prod.mk.sizeOf_spec] at *
    omega

def utf8 (cs : List Char) : List UInt8 := cs.flatMap String.utf8EncodeChar

def hexDigit (n : Nat) : UInt8 := if n < 10 then .ofNat (48 + n) else .ofNat (87 + n)

/-- The bytes of a character inside a string: the quote, the backslash and the
control characters below 32 are escaped, every other character stands for itself. -/
def escape (c : Char) : List UInt8 :=
  if c.toNat = 34 then [92, 34]
  else if c.toNat = 92 then [92, 92]
  else if c.toNat = 8 then [92, 98]
  else if c.toNat = 9 then [92, 116]
  else if c.toNat = 10 then [92, 110]
  else if c.toNat = 12 then [92, 102]
  else if c.toNat = 13 then [92, 114]
  else if c.toNat < 32 then [92, 117, 48, 48, hexDigit (c.toNat / 16), hexDigit (c.toNat % 16)]
  else String.utf8EncodeChar c

def printString (s : String) : List UInt8 := 34 :: (s.toList.flatMap escape ++ [34])

def printInt (n : Int) : List UInt8 := utf8 (toString n).toList

/-- The separator before an element: nothing before the first, a comma before the
others. -/
def separator (first : Bool) : List UInt8 := if first then [] else [44]

mutual
/-- The compact text of a value. -/
def print : Json → List UInt8
  | .null => utf8 "null".toList
  | .bool true => utf8 "true".toList
  | .bool false => utf8 "false".toList
  | .int n => printInt n.val
  | .real literal => utf8 literal.toList
  | .str s => printString s
  | .arr elements => 91 :: (printElements true elements ++ [93])
  | .obj members => 123 :: (printMembers true members ++ [125])

def printElements (first : Bool) : List Json → List UInt8
  | [] => []
  | j :: rest => separator first ++ print j ++ printElements false rest

/-- The members of an object, separated by commas. -/
def printMembers (first : Bool) : List (String × Json) → List UInt8
  | [] => []
  | (name, j) :: rest =>
      separator first ++ printString name ++ 58 :: print j ++ printMembers false rest
end

mutual
/-- How deep containers are nested. -/
def depth : Json → Nat
  | .arr elements => 1 + depthElements elements
  | .obj members => 1 + depthMembers members
  | _ => 0

def depthElements : List Json → Nat
  | [] => 0
  | j :: rest => max (depth j) (depthElements rest)

/-- The deepest of the values of a list of members. -/
def depthMembers : List (String × Json) → Nat
  | [] => 0
  | (_, j) :: rest => max (depth j) (depthMembers rest)
end

mutual
/-- The number of containers, strings (member names included), numbers and
literals. -/
def nodes : Json → Nat
  | .arr elements => 1 + nodesElements elements
  | .obj members => 1 + nodesMembers members
  | _ => 1

def nodesElements : List Json → Nat
  | [] => 0
  | j :: rest => nodes j + nodesElements rest

/-- The nodes of a list of members, their names included. -/
def nodesMembers : List (String × Json) → Nat
  | [] => 0
  | (_, j) :: rest => 1 + nodes j + nodesMembers rest
end

mutual
/-- No number of the value is outside `JsonInt`. -/
def Exact : Json → Prop
  | .real _ => False
  | .arr elements => ExactElements elements
  | .obj members => ExactMembers members
  | _ => True

def ExactElements : List Json → Prop
  | [] => True
  | j :: rest => Exact j ∧ ExactElements rest

/-- `Exact` for every value of a list of members. -/
def ExactMembers : List (String × Json) → Prop
  | [] => True
  | (_, j) :: rest => Exact j ∧ ExactMembers rest
end

theorem exactElements_iff {js : List Json} : ExactElements js ↔ ∀ j ∈ js, Exact j := by
  induction js with
  | nil => simp [ExactElements]
  | cons j rest ih => simp [ExactElements, ih]

theorem exactMembers_iff {ms : List (String × Json)} :
    ExactMembers ms ↔ ∀ m ∈ ms, Exact m.2 := by
  induction ms with
  | nil => simp [ExactMembers]
  | cons m rest ih => simp [ExactMembers, ih]

theorem depthElements_le_iff {js : List Json} {d : Nat} :
    depthElements js ≤ d ↔ ∀ j ∈ js, depth j ≤ d := by
  induction js with
  | nil => simp [depthElements]
  | cons j rest ih => simp [depthElements, ih]

theorem depthMembers_le_iff {ms : List (String × Json)} {d : Nat} :
    depthMembers ms ≤ d ↔ ∀ m ∈ ms, depth m.2 ≤ d := by
  induction ms with
  | nil => simp [depthMembers]
  | cons m rest ih => simp [depthMembers, ih]

theorem nodesElements_eq_sum (js : List Json) : nodesElements js = (js.map nodes).sum := by
  induction js with
  | nil => rfl
  | cons j rest ih => simp [nodesElements, ih]

theorem nodesMembers_append (ms ns : List (String × Json)) :
    nodesMembers (ms ++ ns) = nodesMembers ms + nodesMembers ns := by
  induction ms with
  | nil => simp [nodesMembers]
  | cons m rest ih => simp [nodesMembers, ih]; omega

theorem length_printElements (js : List Json) :
    (printElements true js).length = (js.map fun j => j.print.length).sum + (js.length - 1) ∧
      (printElements false js).length = (js.map fun j => j.print.length).sum + js.length := by
  induction js with
  | nil => simp [printElements]
  | cons j rest ih => simp [printElements, separator, ih.2]; omega

mutual
/-- The value as a tree that keeps its members in name order, the last of a
repeated name. -/
def sortKeys : Json → Json
  | .arr elements => .arr (sortElements elements)
  | .obj members => .obj (OrdMap.ofList (sortMembers members)).entries
  | .null => .null
  | .bool b => .bool b
  | .int n => .int n
  | .real s => .real s
  | .str s => .str s

def sortElements : List Json → List Json
  | [] => []
  | j :: rest => sortKeys j :: sortElements rest

/-- `sortKeys` at the value of every member. -/
def sortMembers : List (String × Json) → List (String × Json)
  | [] => []
  | (name, j) :: rest => (name, sortKeys j) :: sortMembers rest
end

theorem sortElements_eq_map (js : List Json) : sortElements js = js.map sortKeys := by
  induction js with
  | nil => rfl
  | cons j rest ih => simp [sortElements, ih]

theorem sortMembers_eq_map (ms : List (String × Json)) :
    sortMembers ms = ms.map fun m => (m.1, sortKeys m.2) := by
  induction ms with
  | nil => rfl
  | cons m rest ih => simp [sortMembers, ih]

theorem sortKeys_obj_of_sorted {ms : List (String × Json)}
    (h : ms.Pairwise fun a b => a.1 < b.1) :
    sortKeys (.obj ms) = .obj (ms.map fun m => (m.1, sortKeys m.2)) := by
  rw [sortKeys, sortMembers_eq_map, OrdMap.entries_ofList]
  simpa [List.pairwise_map] using h

end Json

end Foundation
