import VirtualIsa.Json

/-!
# Operators of the evaluation engine

An instruction may forward one operator to the engine that evaluates it. The
instruction set only stores the operator; what it computes is the engine's business.

* `Operator` and the list `Operator.all` of its values in declaration order, which is
  also the order of `compare`;
* the name, the key used in dumps and the symbol used in expressions. The name and the
  key differ only for the unsigned operators: `umultiply` has the key `u_multiply`.
  Names and keys are distinct, symbols are not.
-/

namespace VirtualIsa

/-- An operation of the evaluation engine; a leading `u` marks the unsigned variant. -/
inductive Operator where
  | negate
  | add
  | subtract
  | multiply
  | multiplyHigh
  | umultiply
  | umultiplyHigh
  | divide
  | udivide
  | remainder
  | uremainder
  | bitwiseNot
  | bitwiseXor
  | bitwiseOr
  | bitwiseAnd
  | shiftLeft
  | shiftRight
  | rotateLeft
  | rotateRight
  deriving DecidableEq

namespace Operator

/-- Every operator, in declaration order. -/
def all : List Operator :=
  [negate, add, subtract, multiply, multiplyHigh, umultiply, umultiplyHigh, divide, udivide,
    remainder, uremainder, bitwiseNot, bitwiseXor, bitwiseOr, bitwiseAnd, shiftLeft, shiftRight,
    rotateLeft, rotateRight]

/-- The place of an operator in `all`. -/
def position (op : Operator) : Nat := op.ctorIdx

theorem getElem?_all_position (op : Operator) : all[op.position]? = some op := by
  cases op <;> rfl

instance : Ord Operator := ⟨compareOn position⟩

/-- The name of an operator. -/
def name : Operator → String
  | negate => "negate"
  | add => "add"
  | subtract => "subtract"
  | multiply => "multiply"
  | multiplyHigh => "multiply_high"
  | umultiply => "umultiply"
  | umultiplyHigh => "umultiply_high"
  | divide => "divide"
  | udivide => "udivide"
  | remainder => "remainder"
  | uremainder => "uremainder"
  | bitwiseNot => "bitwise_not"
  | bitwiseXor => "bitwise_xor"
  | bitwiseOr => "bitwise_or"
  | bitwiseAnd => "bitwise_and"
  | shiftLeft => "shift_left"
  | shiftRight => "shift_right"
  | rotateLeft => "rotate_left"
  | rotateRight => "rotate_right"

/-- The key of an operator in dumps: its name, with the `u` of an unsigned operator set apart. -/
def key : Operator → String
  | umultiply => "u_multiply"
  | umultiplyHigh => "u_multiply_high"
  | udivide => "u_divide"
  | uremainder => "u_remainder"
  | op => op.name

/-- The symbol of an operator in printed expressions. -/
def symbol : Operator → String
  | negate => "-"
  | add => "+"
  | subtract => "-"
  | multiply | umultiply => "*"
  | multiplyHigh | umultiplyHigh => "h*"
  | divide | udivide => "/"
  | remainder | uremainder => "%"
  | bitwiseNot => "~"
  | bitwiseXor => "^"
  | bitwiseOr => "|"
  | bitwiseAnd => "&"
  | shiftLeft => "<<"
  | shiftRight => ">>"
  | rotateLeft => "rotl"
  | rotateRight => "rotr"

/-- The operator treats its inputs as signed numbers. -/
def isSigned : Operator → Bool
  | multiply | multiplyHigh | divide | remainder => true
  | _ => false

/-- The operator takes one input. -/
def isUnary : Operator → Bool
  | negate | bitwiseNot => true
  | _ => false

theorem name_inj {a b : Operator} : a.name = b.name ↔ a = b := by
  cases a <;> cases b <;> simp [name]

theorem key_inj {a b : Operator} : a.key = b.key ↔ a = b := by
  cases a <;> cases b <;> simp [key, name]

instance : ToString Operator := ⟨name⟩

/-- The dump of an operator. -/
def toJson (op : Operator) : Json := .str op.key

end Operator

end VirtualIsa
