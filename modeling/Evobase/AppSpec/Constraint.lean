import Evobase.AppSpec.Model

/-!
# Constraints

A constraint refines the values of a field. It is checked against the type of the
field when the definition is compiled, and against the values when they are written.
Blank and null values meet every constraint: a required field is the business of the
field alone.
-/

namespace Evobase

open Foundation

/-- A character with the Unicode property `White_Space`. -/
def isWhitespace (c : Char) : Bool :=
  (9 ≤ c.toNat && c.toNat ≤ 13) || c.toNat = 0x20 || c.toNat = 0x85 || c.toNat = 0xA0 ||
    c.toNat = 0x1680 || (0x2000 ≤ c.toNat && c.toNat ≤ 0x200A) || c.toNat = 0x2028 ||
    c.toNat = 0x2029 || c.toNat = 0x202F || c.toNat = 0x205F || c.toNat = 0x3000

def isControl (c : Char) : Bool := c.toNat ≤ 0x1F || (0x7F ≤ c.toNat && c.toNat ≤ 0x9F)

/-- The text without its leading and trailing white space. -/
def trim (text : String) : String :=
  .ofList ((text.toList.dropWhile isWhitespace).reverse.dropWhile isWhitespace).reverse

namespace Constraint

/-- The constraint applies to the type and its bounds are in order. -/
def checkType : Constraint → FieldType → Except String Unit
  | .nonEmpty, .text => .ok ()
  | .textLength min max, .text =>
      rejectIf (¬ (min.val ≤ max.val ∧ max.val ≤ maxTextBytes)) "invalid inclusive bounds"
  | .numericRange min max, .integer | .numericRange min max, .money =>
      rejectIf (¬ min.val ≤ max.val) "invalid inclusive bounds"
  | _, _ => .error "constraint does not support the field type"

/-- The value meets the constraint. Lengths are counted in characters. -/
def accepts : Constraint → Value → Bool
  | _, .blank | _, .null => true
  | .nonEmpty, .text text => trim text ≠ ""
  | .textLength min max, .text text =>
      min.val ≤ text.length && text.length ≤ max.val
  | .numericRange min max, .integer n | .numericRange min max, .money n =>
      min.val ≤ n.val && n.val ≤ max.val
  | _, _ => false

end Constraint

/-- The constraints of a definition have pairwise different identities and fit the
declared fields they are about. -/
def checkConstraints (spec : RawAppSpec) : Except Error Unit := do
  rejectIf (spec.constraints.length > maxConstraints) (.limitExceeded "constraints" maxConstraints)
  eachAfter (fun before rule => do
    rejectIf (rule.constraintId ∈ before.map (·.constraintId))
      (.invalidConstraint rule.constraintId "duplicate constraint identity")
    let field ← okOr (.unknownField rule.tableId rule.fieldId)
      (spec.field rule.tableId rule.fieldId)
    renameError (.invalidConstraint rule.constraintId)
      (rule.constraint.checkType field.fieldType)) [] spec.constraints

def RawAppSpec.constraintsOn (spec : RawAppSpec) (table : TableId) (field : FieldId) :
    List RawFieldConstraint :=
  spec.constraints.filter fun rule => rule.tableId = table ∧ rule.fieldId = field

end Evobase
