import VirtualIsa.Instruction.Basic

/-!
# Drafts of instructions

A draft gathers the settings of an instruction, one edit at a time, and assumes nothing
about them; whether they describe an instruction is asked when it is built.

* `Draft`, with all of its branches in the order in which they were added;
* `Draft.Edit` and `Draft.revise`: the operand list can be replaced or extended, branches
  are only added, and of every other setting the last edit counts.
-/

namespace VirtualIsa

/-- The settings of an instruction that is still being described. -/
structure Draft where
  name : String
  operands : List Access
  sizeOperand : Option Nat
  volatile : Bool
  operator : Option Operator
  branches : List BranchTarget
  memory : Option MemoryAccess
  deriving DecidableEq

namespace Draft

/-- The draft that has only a name. -/
def blank (name : String) : Draft := ⟨name, [], none, false, none, [], none⟩

/-- A step in the making of a draft. -/
inductive Edit where
  | operands (all : List Access)
  | operand (one : Access)
  | sizeOperand (index : Nat)
  | volatile
  | operator (op : Operator)
  | branch (target : BranchTarget)
  | continuesVirtual (index : Nat)
  | exitsToNative (index : Nat)
  | memory (index : Nat) (write : Bool)
  deriving DecidableEq

/-- A draft with one more branch. -/
def addBranch (d : Draft) (t : BranchTarget) : Draft := { d with branches := d.branches ++ [t] }

/-- A draft after an edit. -/
def revise (d : Draft) : Edit → Draft
  | .operands all => { d with operands := all }
  | .operand one => { d with operands := d.operands ++ [one] }
  | .sizeOperand index => { d with sizeOperand := some index }
  | .volatile => { d with volatile := true }
  | .operator op => { d with operator := some op }
  | .branch target => d.addBranch target
  | .continuesVirtual index => d.addBranch (.virtual index)
  | .exitsToNative index => d.addBranch (.native index)
  | .memory index write => { d with memory := some ⟨index, write⟩ }

/-- A draft after a run of edits. -/
def reviseAll (d : Draft) (es : List Edit) : Draft := es.foldl revise d

@[simp] theorem reviseAll_nil (d : Draft) : d.reviseAll [] = d := rfl

@[simp] theorem reviseAll_cons (d : Draft) (e : Edit) (es : List Edit) :
    d.reviseAll (e :: es) = (d.revise e).reviseAll es := rfl

theorem reviseAll_append (d : Draft) (es fs : List Edit) :
    d.reviseAll (es ++ fs) = (d.reviseAll es).reviseAll fs := by
  simp [reviseAll]

@[simp] theorem name_revise (d : Draft) (e : Edit) : (d.revise e).name = d.name := by
  cases e <;> rfl

/-- An edit leaves the branches as they are or adds one at the end. -/
theorem branches_revise (d : Draft) (e : Edit) :
    ∃ ts, (d.revise e).branches = d.branches ++ ts := by
  cases e with
  | branch t => exact ⟨[t], rfl⟩
  | continuesVirtual k => exact ⟨[.virtual k], rfl⟩
  | exitsToNative k => exact ⟨[.native k], rfl⟩
  | _ => exact ⟨[], (List.append_nil _).symm⟩

end Draft

end VirtualIsa
