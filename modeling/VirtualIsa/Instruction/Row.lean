import VirtualIsa.Instruction.Build

/-!
# Table rows

The dense notation for instructions in a table. Operands are counted from one, so that
zero can stand for no operand, and a branch is a signed entry: `n` continues in the
virtual machine through operand number `n`, and `-n` leaves it there.

* `Row` and `Row.draft?`, the draft that a row stands for. Main statement:
  `Row.draft?_eq_none_iff`, a row stands for a draft unless it has the branch zero;
* `Row.build`, where that branch is reported before anything else.
-/

namespace VirtualIsa

namespace BranchTarget

/-- The targets that table entries stand for, if none of them is zero. -/
def ofSignedList? : List Int32 → Option (List BranchTarget)
  | [] => some []
  | entry :: entries => do
    let t ← ofSigned? entry
    let ts ← ofSignedList? entries
    return t :: ts

theorem ofSignedList?_eq_none_iff {entries : List Int32} :
    ofSignedList? entries = none ↔ 0 ∈ entries := by
  induction entries with
  | nil => simp [ofSignedList?]
  | cons entry entries ih =>
    have hz : (0 : Int32) = entry ↔ ofSigned? entry = none := by
      rw [ofSigned?_eq_none_iff, eq_comm]
    rw [List.mem_cons, hz, ← ih]
    cases h : ofSigned? entry <;> cases h' : ofSignedList? entries <;> simp [ofSignedList?, h, h']

theorem ofSignedList?_eq_some_iff {entries : List Int32} {ts : List BranchTarget} :
    ofSignedList? entries = some ts ↔ entries.map (·.toInt) = ts.map (·.signed) := by
  induction entries generalizing ts with
  | nil => cases ts <;> simp [ofSignedList?]
  | cons entry entries ih =>
    cases ts with
    | nil => simp [ofSignedList?, Option.bind_eq_some_iff]
    | cons t ts =>
      simp [ofSignedList?, Option.bind_eq_some_iff, ← ih, ← ofSigned?_eq_some_iff]

end BranchTarget

/-- An instruction in the notation of tables. -/
structure Row where
  name : String
  operands : List Access
  sizeOperand : Nat
  volatile : Bool
  operator : Option Operator
  branches : List Int32
  memoryOperand : Nat
  memoryWrite : Bool
  deriving DecidableEq

namespace Row

/-- The operand with a number, counted from zero; number zero is none. -/
def operandOfNumber? : Nat → Option Nat
  | 0 => none
  | k + 1 => some k

/-- The draft that a row stands for, if its branches can be read. -/
def draft? (r : Row) : Option Draft := do
  let branches ← BranchTarget.ofSignedList? r.branches
  return {
    name := r.name
    operands := r.operands
    sizeOperand := operandOfNumber? r.sizeOperand
    volatile := r.volatile
    operator := r.operator
    branches := branches
    memory := (operandOfNumber? r.memoryOperand).map fun k => ⟨k, r.memoryWrite⟩ }

/-- The instruction that a row describes, or what is wrong with the row. -/
def build (r : Row) : Except Defect Instruction :=
  match r.draft? with
  | none => .error ⟨r.name, .zeroBranchTarget⟩
  | some d => d.build

theorem draft?_eq_none_iff {r : Row} : r.draft? = none ↔ 0 ∈ r.branches := by
  rw [← BranchTarget.ofSignedList?_eq_none_iff]
  unfold draft?
  cases BranchTarget.ofSignedList? r.branches <;> simp

/-- A row that builds stands for a draft that builds. -/
theorem build_eq_ok_iff {r : Row} {i : Instruction} :
    r.build = .ok i ↔ ∃ d, r.draft? = some d ∧ d.build = .ok i := by
  unfold build
  cases r.draft? <;> simp

end Row

end VirtualIsa
