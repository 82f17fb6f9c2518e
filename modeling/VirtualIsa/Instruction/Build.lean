import VirtualIsa.Instruction.Defect
import VirtualIsa.Instruction.Draft

/-!
# From drafts to instructions

Building checks a draft and sorts its branches by kind. The number of operands comes
first, then the operand of the size, then the operand of the memory access, and then the
branches one by one; the first broken rule is the defect that is reported.

* `Targets.place` and `Targets.ofBranches`, the check of the branches. Main statement:
  `Targets.ofBranches_eq_ok_iff`, which needs no order: every branch is through an operand
  that exists, and no operand is named twice, under whatever kind;
* `Draft.fault?`, the checks that do not look at the branches;
* `Draft.build`, and `Draft.Sound`, the rules without their order. Main statement:
  `Draft.build_eq_ok_iff`, a draft builds exactly when it is sound.
-/

namespace VirtualIsa

open Defect (Cause)

namespace Targets

/-- One more target for an instruction with `count` operands: its operand has to be one of
them, and not a target yet. -/
def place (count : Nat) (ts : Targets) (t : BranchTarget) : Except Cause Targets :=
  if count ≤ t.operand then .error (.branchTargetOutOfRange t.operand count)
  else if ts.mentions t.operand then .error (.duplicateBranchTarget t.operand)
  else .ok (ts.add t)

/-- The targets of an instruction with `count` operands, placed from first to last. -/
def ofBranches (count : Nat) (bs : List BranchTarget) : Except Cause Targets :=
  bs.foldlM (place count) empty

theorem place_eq_ok_iff {count : Nat} {ts ts' : Targets} {t : BranchTarget} :
    place count ts t = .ok ts' ↔ t.operand < count ∧ ¬ ts.mentions t.operand ∧ ts' = ts.add t := by
  unfold place
  split
  next h => simp; omega
  next h =>
    split
    next hm => simp [hm]
    next hm => simp [hm, eq_comm]; omega

theorem ofBranches_append (count : Nat) (bs cs : List BranchTarget) :
    ofBranches count (bs ++ cs) =
      (ofBranches count bs).bind fun ts => cs.foldlM (place count) ts := by
  simp [ofBranches, List.foldlM_append, bind]

/-- Placing after `ds` have been placed: the new operands differ from the old ones too. -/
theorem foldlM_place_ofList {count : Nat} {ds bs : List BranchTarget} {ts : Targets} :
    bs.foldlM (place count) (ofList ds) = .ok ts ↔
      (∀ t ∈ bs, t.operand < count) ∧ (∀ t ∈ bs, t.operand ∉ ds.map (·.operand)) ∧
        (bs.map (·.operand)).Nodup ∧ ts = ofList (ds ++ bs) := by
  induction bs generalizing ds with
  | nil => simp [pure, Except.pure, eq_comm]
  | cons t bs ih =>
    have step : (t :: bs).foldlM (place count) (ofList ds) = .ok ts ↔
        t.operand < count ∧ t.operand ∉ ds.map (·.operand) ∧
          bs.foldlM (place count) (ofList (ds ++ [t])) = .ok ts := by
      rw [List.foldlM_cons, ofList_append_singleton, ← mentions_ofList]
      cases h : place count (ofList ds) t with
      | ok ts' =>
        obtain ⟨hlt, hnew, rfl⟩ := place_eq_ok_iff.1 h
        exact ⟨fun he => ⟨hlt, hnew, he⟩, fun he => he.2.2⟩
      | error cause =>
        refine ⟨nofun, fun ⟨hlt, hnew, _⟩ => ?_⟩
        rw [place_eq_ok_iff.2 ⟨hlt, hnew, rfl⟩] at h
        cases h
    rw [step, ih]
    grind

/-- Placing succeeds on branches through distinct operands that exist, and sorts them by kind. -/
theorem ofBranches_eq_ok_iff {count : Nat} {bs : List BranchTarget} {ts : Targets} :
    ofBranches count bs = .ok ts ↔
      (∀ t ∈ bs, t.operand < count) ∧ (bs.map (·.operand)).Nodup ∧ ts = ofList bs := by
  rw [ofBranches, show empty = ofList [] from rfl, foldlM_place_ofList]
  simp

end Targets

namespace Draft

/-- The number of operands of a draft. -/
def operandCount (d : Draft) : Nat := d.operands.length

/-- The rules for a draft that can be built. -/
structure Sound (d : Draft) : Prop where
  operandCount_le : d.operandCount ≤ maxOperandCount
  sizeOperand_lt : ∀ k ∈ d.sizeOperand, k < d.operandCount
  memory_lt : ∀ m ∈ d.memory, m.operand < d.operandCount
  branch_lt : ∀ t ∈ d.branches, t.operand < d.operandCount
  nodup_branches : (d.branches.map (·.operand)).Nodup

/-- The first broken rule among those that are not about branches. -/
def fault? (d : Draft) : Option Cause :=
  if maxOperandCount < d.operandCount then some (.tooManyOperands d.operandCount maxOperandCount)
  else
    (d.sizeOperand.filter (d.operandCount ≤ ·)).map (.sizeOperandOutOfRange · d.operandCount) <|>
    ((d.memory.map (·.operand)).filter (d.operandCount ≤ ·)).map
      (.memoryOperandOutOfRange · d.operandCount)

theorem fault?_eq_none_iff {d : Draft} : d.fault? = none ↔
    d.operandCount ≤ maxOperandCount ∧ (∀ k ∈ d.sizeOperand, k < d.operandCount) ∧
      ∀ m ∈ d.memory, m.operand < d.operandCount := by
  unfold fault?
  split
  next h => simp; omega
  next h =>
    have h' : d.operandCount ≤ maxOperandCount := by omega
    simp [h', Option.filter_eq_none_iff]

/-- The targets of a draft, or the first rule that the draft breaks. -/
def targets (d : Draft) : Except Cause Targets :=
  match d.fault? with
  | some cause => .error cause
  | none => Targets.ofBranches d.operandCount d.branches

/-- The instruction with the settings of a draft and the given targets. -/
def withTargets (d : Draft) (targets : Targets) : Instruction where
  name := d.name
  operands := d.operands
  sizeOperand := d.sizeOperand
  volatile := d.volatile
  operator := d.operator
  targets := targets
  memory := d.memory

/-- The instruction that a draft describes, or what is wrong with the draft. -/
def build (d : Draft) : Except Defect Instruction :=
  match d.targets with
  | .error cause => .error ⟨d.name, cause⟩
  | .ok targets => .ok (d.withTargets targets)

theorem targets_eq_ok_iff {d : Draft} {ts : Targets} :
    d.targets = .ok ts ↔ d.Sound ∧ ts = .ofList d.branches := by
  have hsound : d.Sound ↔ d.fault? = none ∧ (∀ t ∈ d.branches, t.operand < d.operandCount) ∧
      (d.branches.map (·.operand)).Nodup := by
    rw [fault?_eq_none_iff]
    exact ⟨fun h => ⟨⟨h.1, h.2, h.3⟩, h.4, h.5⟩, fun ⟨⟨h₁, h₂, h₃⟩, h₄, h₅⟩ => ⟨h₁, h₂, h₃, h₄, h₅⟩⟩
  rw [hsound]
  unfold targets
  cases d.fault? with
  | some cause => simp
  | none => simp [Targets.ofBranches_eq_ok_iff, and_assoc]

theorem build_eq_ok_iff {d : Draft} {i : Instruction} :
    d.build = .ok i ↔ d.Sound ∧ i = d.withTargets (.ofList d.branches) := by
  unfold build
  cases h : d.targets with
  | error cause =>
    refine ⟨nofun, fun ⟨hs, _⟩ => ?_⟩
    rw [targets_eq_ok_iff.2 ⟨hs, rfl⟩] at h
    cases h
  | ok ts =>
    obtain ⟨hs, rfl⟩ := targets_eq_ok_iff.1 h
    simp [hs, eq_comm]

end Draft

end VirtualIsa
