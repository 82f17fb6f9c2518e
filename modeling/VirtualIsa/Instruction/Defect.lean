/-!
# Defects of instruction descriptions

What can be wrong with a description, and the text that reports it. A defect always names
the instruction.
-/

namespace VirtualIsa

/-- A broken rule. A reference comes with the number of operands that there are. -/
inductive Defect.Cause where
  | tooManyOperands (count max : Nat)
  | sizeOperandOutOfRange (index count : Nat)
  | memoryOperandOutOfRange (index count : Nat)
  | zeroBranchTarget
  | branchTargetOutOfRange (index count : Nat)
  | duplicateBranchTarget (index : Nat)
  deriving DecidableEq

/-- What is wrong with the description of an instruction. -/
structure Defect where
  name : String
  cause : Defect.Cause
  deriving DecidableEq

/-- What a defective instruction does wrong, to be read after its name. -/
def Defect.Cause.predicate : Defect.Cause → String
  | tooManyOperands count max =>
    "declares " ++ toString count ++ " operands, at most " ++ toString max ++ " are allowed"
  | sizeOperandOutOfRange index count =>
    "sizes itself by operand " ++ toString index ++ " but has " ++ toString count ++
      " operand(s)"
  | memoryOperandOutOfRange index count =>
    "accesses memory through operand " ++ toString index ++ " but has " ++ toString count ++
      " operand(s)"
  | zeroBranchTarget => "lists branch target 0; branch targets are 1-based"
  | branchTargetOutOfRange index count =>
    "branches through operand " ++ toString index ++ " but has " ++ toString count ++
      " operand(s)"
  | duplicateBranchTarget index =>
    "lists operand " ++ toString index ++ " as a branch target more than once"

/-- The text of a defect. -/
def Defect.message (d : Defect) : String := "'" ++ d.name ++ "' " ++ d.cause.predicate

end VirtualIsa
