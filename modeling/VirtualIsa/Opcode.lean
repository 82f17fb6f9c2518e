import VirtualIsa.Instruction.Row

/-!
# The opcodes of the virtual machine

The fixed instruction set, one opcode for each entry of the standard catalog.

* `Opcode` and `Opcode.all`, in catalog order;
* `Opcode.row`, the description of each opcode as a table row. Main statement:
  `Opcode.build_row`, every row is without defects and describes `Opcode.instruction`;
* the mnemonic of an opcode, and its label in dumps.
-/

namespace VirtualIsa

/-- An instruction of the virtual machine. -/
inductive Opcode where
  | mov
  | movr
  | str
  | ldd
  | neg
  | add
  | sub
  | mul
  | imul
  | mulhi
  | imulhi
  | div
  | idiv
  | rem
  | irem
  | not
  | shr
  | shl
  | xor
  | or
  | and
  | ror
  | rol
  | upflg
  | js
  | jmp
  | vexit
  | vxcall
  | nop
  | vsetcc
  | vemit
  | vpinr
  | vpinw
  | vpinrm
  | vpinwm
  deriving DecidableEq

namespace Opcode

/-- Every opcode, in catalog order. -/
def all : List Opcode :=
  [mov, movr, str, ldd, neg, add, sub, mul, imul, mulhi, imulhi, div, idiv, rem, irem, not, shr,
    shl, xor, or, and, ror, rol, upflg, js, jmp, vexit, vxcall, nop, vsetcc, vemit, vpinr, vpinw,
    vpinrm, vpinwm]

/-- The place of an opcode in `all`. -/
def position (op : Opcode) : Nat := op.ctorIdx

theorem getElem?_all_position (op : Opcode) : all[op.position]? = some op := by
  cases op <;> rfl

theorem mem_all (op : Opcode) : op ∈ all := List.mem_of_getElem? op.getElem?_all_position

instance : Ord Opcode := ⟨compareOn position⟩

/-! ### The table -/

/-- An instruction that combines its first operand, which sets the size, with the others by an
operator. -/
def evaluating (name : String) (operator : Operator) (others : List Access) : Row :=
  ⟨name, .readWrite :: others, 1, false, some operator, [], 0, false⟩

/-- The table row of an opcode. Operands are numbered from one.

The first operand of `div`, `idiv`, `rem` and `irem` is the lower half of the dividend, the
second its upper half, and the third the divisor; `mulhi` and `imulhi` keep the upper half of
the product. `upflg` takes the flags that the last instruction left. `js` tests its first
operand and stays in the virtual machine, as `jmp` does; `vexit` leaves it for good and
`vxcall` until the call returns. `vemit` emits a constant as it is, and the pins hold a
register, or the memory at the sum of two operands, for reading or writing. -/
def row : Opcode → Row
  | mov => ⟨"mov", [.write, .readAny], 2, false, none, [], 0, false⟩
  | movr => ⟨"movr", [.write, .readImm], 2, false, none, [], 0, false⟩
  | str => ⟨"str", [.readReg, .readImm, .readAny], 3, false, none, [], 1, true⟩
  | ldd => ⟨"ldd", [.write, .readReg, .readImm], 1, false, none, [], 2, false⟩
  | neg => evaluating "neg" .negate []
  | add => evaluating "add" .add [.readAny]
  | sub => evaluating "sub" .subtract [.readAny]
  | mul => evaluating "mul" .umultiply [.readAny]
  | imul => evaluating "imul" .multiply [.readAny]
  | mulhi => evaluating "mulhi" .umultiplyHigh [.readAny]
  | imulhi => evaluating "imulhi" .multiplyHigh [.readAny]
  | div => evaluating "div" .udivide [.readAny, .readAny]
  | idiv => evaluating "idiv" .divide [.readAny, .readAny]
  | rem => evaluating "rem" .uremainder [.readAny, .readAny]
  | irem => evaluating "irem" .remainder [.readAny, .readAny]
  | not => evaluating "not" .bitwiseNot []
  | shr => evaluating "shr" .shiftRight [.readAny]
  | shl => evaluating "shl" .shiftLeft [.readAny]
  | xor => evaluating "xor" .bitwiseXor [.readAny]
  | or => evaluating "or" .bitwiseOr [.readAny]
  | and => evaluating "and" .bitwiseAnd [.readAny]
  | ror => evaluating "ror" .rotateRight [.readAny]
  | rol => evaluating "rol" .rotateLeft [.readAny]
  | upflg => ⟨"upflg", [.readWrite], 1, false, none, [], 0, false⟩
  | js => ⟨"js", [.readReg, .readAny, .readAny], 2, true, none, [1, 2], 0, false⟩
  | jmp => ⟨"jmp", [.readAny], 1, true, none, [1], 0, false⟩
  | vexit => ⟨"vexit", [.readAny], 1, true, none, [-1], 0, false⟩
  | vxcall => ⟨"vxcall", [.readAny], 1, true, none, [], 0, false⟩
  | nop => ⟨"nop", [], 0, false, none, [], 0, false⟩
  | vsetcc => ⟨"vsetcc", [.write, .readImm], 1, false, none, [], 0, false⟩
  | vemit => ⟨"vemit", [.readImm], 1, true, none, [], 0, false⟩
  | vpinr => ⟨"vpinr", [.readReg], 1, true, none, [], 0, false⟩
  | vpinw => ⟨"vpinw", [.write], 1, true, none, [], 0, false⟩
  | vpinrm => ⟨"vpinrm", [.readReg, .readImm], 1, true, none, [], 1, false⟩
  | vpinwm => ⟨"vpinwm", [.readReg, .readImm], 1, true, none, [], 1, true⟩

/-- The description of an opcode. -/
def instruction (op : Opcode) : Instruction :=
  op.row.build.toOption.get (by cases op <;> rfl)

theorem build_row (op : Opcode) : op.row.build = .ok op.instruction := by
  cases op <;> rfl

/-! ### Names -/

/-- The name by which an opcode is written and read. -/
def mnemonic (op : Opcode) : String := op.row.name

instance : ToString Opcode := ⟨mnemonic⟩

theorem name_instruction (op : Opcode) : op.instruction.name = op.mnemonic := by
  cases op <;> rfl

/-- The mnemonics are distinct. -/
theorem nodup_mnemonics : (all.map mnemonic).Nodup := by
  decide

/-- The label of an opcode in dumps: its mnemonic with a capital letter. -/
def label (op : Opcode) : String := op.mnemonic.capitalize

/-- The dump of an opcode. -/
def toJson (op : Opcode) : Json := .str op.label

end Opcode

end VirtualIsa
