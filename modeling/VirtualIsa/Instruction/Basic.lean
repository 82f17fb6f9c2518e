import VirtualIsa.Access
import VirtualIsa.Branch
import VirtualIsa.Operator

/-!
# Descriptions of instructions

An instruction is described by its name, the roles of its operands and references to
them: the operand that sets its size, the operand that holds an address and the operands
through which it branches. References count operands from zero.

* `Instruction`, plain data, and the questions that it answers;
* `Instruction.WellFormed`: every reference is to one of at most four operands, and none
  is a branch target twice;
* the one-line `Instruction.signature` and the dump.
-/

namespace VirtualIsa

/-- The access of an instruction to memory, through the operand that holds the address. -/
structure MemoryAccess where
  operand : Nat
  write : Bool
  deriving DecidableEq

/-- The dump of a memory access. -/
def MemoryAccess.toJson (m : MemoryAccess) : Json :=
  .obj [("operand", .num m.operand), ("write", .bool m.write)]

/-- What is known of an instruction. A volatile one does more than its operands show, and
may not be dropped or moved. -/
structure Instruction where
  name : String
  operands : List Access
  sizeOperand : Option Nat
  volatile : Bool
  operator : Option Operator
  targets : Targets
  memory : Option MemoryAccess
  deriving DecidableEq

/-- The most operands an instruction may have. -/
def maxOperandCount : Nat := 4

namespace Instruction

/-- The number of operands. -/
def operandCount (i : Instruction) : Nat := i.operands.length

/-- The references of the instruction are in order. -/
structure WellFormed (i : Instruction) : Prop where
  operandCount_le : i.operandCount ≤ maxOperandCount
  sizeOperand_lt : ∀ k ∈ i.sizeOperand, k < i.operandCount
  memory_lt : ∀ m ∈ i.memory, m.operand < i.operandCount
  target_lt : ∀ k, i.targets.mentions k → k < i.operandCount
  nodup_virtual : i.targets.virtual.Nodup
  nodup_native : i.targets.native.Nodup
  disjoint : ∀ k ∈ i.targets.virtual, k ∉ i.targets.native

/-! ### Questions -/

/-- An operand sets the size. -/
def hasDynamicSize (i : Instruction) : Bool := i.sizeOperand.isSome

/-- The instruction forwards an operator. -/
def hasOperator (i : Instruction) : Bool := i.operator.isSome

/-- The branch target that an operand holds. -/
def branchTarget? (i : Instruction) (k : Nat) : Option BranchTarget := i.targets.find? k

/-- Some operand continues in the virtual machine. -/
def branchesVirtually (i : Instruction) : Bool := !i.targets.virtual.isEmpty

/-- Some operand leaves the virtual machine. -/
def branchesNatively (i : Instruction) : Bool := !i.targets.native.isEmpty

/-- Some operand is a branch target. -/
def branches (i : Instruction) : Bool := i.branchesVirtually || i.branchesNatively

/-- The instruction reads or writes memory. -/
def accessesMemory (i : Instruction) : Bool := i.memory.isSome

/-- The instruction reads memory. -/
def readsMemory (i : Instruction) : Bool := i.memory.any (!·.write)

/-- The instruction writes memory. -/
def writesMemory (i : Instruction) : Bool := i.memory.any (·.write)

theorem accessesMemory_eq (i : Instruction) :
    i.accessesMemory = (i.readsMemory || i.writesMemory) := by
  unfold accessesMemory readsMemory writesMemory
  cases i.memory <;> simp

/-! ### Text -/

/-- The operands of the signature: their roles, with commas between them. -/
def operandText (operands : List Access) : String := ", ".intercalate (operands.map Access.name)

/-- The name of an instruction and the roles of its operands. -/
def signature (i : Instruction) : String :=
  match i.operands with
  | [] => i.name
  | operands => i.name ++ " " ++ operandText operands

instance : ToString Instruction := ⟨signature⟩

/-- The dump of an instruction. -/
def toJson (i : Instruction) : Json :=
  .obj [
    ("name", .str i.name),
    ("operands", .arr (i.operands.map Access.toJson)),
    ("size_operand", .ofOption .num i.sizeOperand),
    ("volatile", .bool i.volatile),
    ("operator", .ofOption Operator.toJson i.operator),
    ("virtual_targets", .arr (i.targets.virtual.map .num)),
    ("native_targets", .arr (i.targets.native.map .num)),
    ("memory", .ofOption MemoryAccess.toJson i.memory)]

end Instruction

end VirtualIsa
