import VirtualIsa.Json

/-!
# Operand roles

`Access` says how an instruction uses one of its operands, and with that what may be
bound there: a written operand needs a register, `readImm` needs a constant and
`readAny` takes either.
-/

namespace VirtualIsa

/-- How an instruction uses an operand. -/
inductive Access where
  | write
  | readReg
  | readImm
  | readAny
  | readWrite
  deriving DecidableEq

namespace Access

/-- The name of a role, in text and in dumps. -/
def name : Access → String
  | write => "write"
  | readReg => "read_reg"
  | readImm => "read_imm"
  | readAny => "read_any"
  | readWrite => "readwrite"

/-- The operand's value is used. -/
def isRead : Access → Bool
  | write => false
  | _ => true

/-- The operand receives a result. -/
def isWrite : Access → Bool
  | write | readWrite => true
  | _ => false

/-- A register may be bound here. -/
def acceptsRegister : Access → Bool
  | readImm => false
  | _ => true

/-- A constant may be bound here. -/
def acceptsImmediate : Access → Bool
  | readImm | readAny => true
  | _ => false

/-- Only a register may be bound here. -/
def requiresRegister (a : Access) : Bool := !a.acceptsImmediate

theorem name_inj {a b : Access} : a.name = b.name ↔ a = b := by
  cases a <;> cases b <;> simp [name]

/-- A written operand needs a register. -/
theorem requiresRegister_of_isWrite {a : Access} (h : a.isWrite) : a.requiresRegister := by
  cases a <;> simp_all [isWrite, requiresRegister, acceptsImmediate]

/-- Something may be bound to every operand. -/
theorem acceptsRegister_or_acceptsImmediate (a : Access) :
    a.acceptsRegister ∨ a.acceptsImmediate := by
  cases a <;> decide

instance : ToString Access := ⟨name⟩

/-- The dump of a role. -/
def toJson (a : Access) : Json := .str a.name

end Access

end VirtualIsa
