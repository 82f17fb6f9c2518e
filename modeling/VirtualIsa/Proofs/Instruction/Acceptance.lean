import VirtualIsa.Instruction.Build
import VirtualIsa.Proofs.Scan

/-!
# Which drafts build, and what is reported of the others

A draft may break several rules at once. The rules are taken in a fixed order, and of the
branches the first one that cannot be placed counts, so that one defect is reported.

* `Targets.MisplacedAt`: the branch at a position is through an operand that does not exist,
  or through one that an earlier branch has taken. Main statement:
  `Targets.ofBranches_eq_error_iff`, placing reports the first misplaced branch;
* `Draft.BreaksFirst d cause`: `cause` reports the first rule that the draft breaks. Main
  statement: `Draft.build_of_sound_or_first_defect`, a draft builds exactly when it is sound,
  and if not, its only report is that of the first broken rule.
-/

namespace VirtualIsa

open Defect (Cause)

namespace Targets

variable {count : ℕ} {bs : List BranchTarget}

/-- The branch at position `k` cannot be placed: its operand does not exist, or a branch
before it is through the same operand, of whatever kind. -/
def MisplacedAt (count : ℕ) (bs : List BranchTarget) (k : ℕ) : Prop :=
  (∃ t ∈ bs[k]?, count ≤ t.operand) ∨ RepeatsAt BranchTarget.operand bs k

/-- No branch is misplaced before position `k` when the branches there have distinct operands
that exist. -/
theorem forall_not_misplacedAt_iff {k : ℕ} :
    (∀ j < k, ¬ MisplacedAt count bs j) ↔
      (∀ t ∈ bs.take k, t.operand < count) ∧ ((bs.take k).map (·.operand)).Nodup := by
  rw [nodup_map_take_iff]
  constructor
  · intro h
    refine ⟨fun t ht => ?_, fun j hj hrep => h j hj (.inr hrep)⟩
    obtain ⟨j, hj, hjt⟩ := mem_take_iff.1 ht
    exact Nat.lt_of_not_le fun hle => h j hj (.inl ⟨t, hjt, hle⟩)
  · rintro ⟨hlt, hrep⟩ j hj (⟨t, ht, hle⟩ | hr)
    · exact Nat.not_le_of_lt (hlt t (mem_take_iff.2 ⟨j, hj, ht⟩)) hle
    · exact hrep j hj hr

theorem ofBranches_take_eq_ok_iff {k : ℕ} {ts : Targets} :
    ofBranches count (bs.take k) = .ok ts ↔
      (∀ j < k, ¬ MisplacedAt count bs j) ∧ ts = ofList (bs.take k) := by
  rw [ofBranches_eq_ok_iff, forall_not_misplacedAt_iff, and_assoc]

theorem place_eq_error_iff {ts : Targets} {t : BranchTarget} {cause : Cause} :
    place count ts t = .error cause ↔
      count ≤ t.operand ∧ cause = .branchTargetOutOfRange t.operand count ∨
      t.operand < count ∧ ts.mentions t.operand ∧ cause = .duplicateBranchTarget t.operand := by
  unfold place
  split_ifs with hle hm
  · simp [hle, Nat.not_lt_of_le hle, eq_comm (a := cause)]
  · simp [hle, Nat.lt_of_not_le hle, hm, eq_comm (a := cause)]
  · simp [hle, hm]

/-- Placing fails at the first misplaced branch; an operand that does not exist is reported
before a repeated one. -/
theorem ofBranches_eq_error_iff {cause : Cause} :
    ofBranches count bs = .error cause ↔
      ∃ k, ∃ t ∈ bs[k]?, (∀ j < k, ¬ MisplacedAt count bs j) ∧
        (count ≤ t.operand ∧ cause = .branchTargetOutOfRange t.operand count ∨
          t.operand < count ∧ RepeatsAt BranchTarget.operand bs k ∧
            cause = .duplicateBranchTarget t.operand) := by
  rw [ofBranches, foldlM_eq_error_iff]
  constructor
  · rintro ⟨k, t, ts, ht, hts, he⟩
    obtain ⟨hfirst, rfl⟩ := ofBranches_take_eq_ok_iff.1 hts
    rw [place_eq_error_iff, mentions_ofList, ← repeatsAt_iff ht] at he
    exact ⟨k, t, ht, hfirst, he⟩
  · rintro ⟨k, t, ht, hfirst, he⟩
    refine ⟨k, t, _, ht, ofBranches_take_eq_ok_iff.2 ⟨hfirst, rfl⟩, ?_⟩
    rw [place_eq_error_iff, mentions_ofList, ← repeatsAt_iff ht]
    exact he

end Targets

namespace Draft

variable {d : Draft} {cause : Cause}

/-- `cause` reports the first rule that the draft breaks: the number of operands comes before
the operand of the size, that before the operand of the memory access, and that before the
branches, of which the first misplaced one counts. -/
inductive BreaksFirst (d : Draft) : Cause → Prop
  | tooManyOperands (h : maxOperandCount < d.operandCount) :
    BreaksFirst d (.tooManyOperands d.operandCount maxOperandCount)
  | sizeOperand {k : ℕ} (hcount : d.operandCount ≤ maxOperandCount)
    (hk : k ∈ d.sizeOperand) (h : d.operandCount ≤ k) :
    BreaksFirst d (.sizeOperandOutOfRange k d.operandCount)
  | memoryOperand {m : MemoryAccess} (hcount : d.operandCount ≤ maxOperandCount)
    (hsize : ∀ k ∈ d.sizeOperand, k < d.operandCount)
    (hm : m ∈ d.memory) (h : d.operandCount ≤ m.operand) :
    BreaksFirst d (.memoryOperandOutOfRange m.operand d.operandCount)
  | branchOutOfRange {k : ℕ} {t : BranchTarget} (hcount : d.operandCount ≤ maxOperandCount)
    (hsize : ∀ k ∈ d.sizeOperand, k < d.operandCount)
    (hmemory : ∀ m ∈ d.memory, m.operand < d.operandCount)
    (ht : t ∈ d.branches[k]?)
    (hfirst : ∀ j < k, ¬ Targets.MisplacedAt d.operandCount d.branches j)
    (h : d.operandCount ≤ t.operand) :
    BreaksFirst d (.branchTargetOutOfRange t.operand d.operandCount)
  | duplicateBranch {k : ℕ} {t : BranchTarget} (hcount : d.operandCount ≤ maxOperandCount)
    (hsize : ∀ k ∈ d.sizeOperand, k < d.operandCount)
    (hmemory : ∀ m ∈ d.memory, m.operand < d.operandCount)
    (ht : t ∈ d.branches[k]?)
    (hfirst : ∀ j < k, ¬ Targets.MisplacedAt d.operandCount d.branches j)
    (hlt : t.operand < d.operandCount) (h : RepeatsAt BranchTarget.operand d.branches k) :
    BreaksFirst d (.duplicateBranchTarget t.operand)

theorem fault?_eq_some_iff : d.fault? = some cause ↔
    maxOperandCount < d.operandCount ∧
      cause = .tooManyOperands d.operandCount maxOperandCount ∨
    d.operandCount ≤ maxOperandCount ∧ (∃ k ∈ d.sizeOperand, d.operandCount ≤ k ∧
      cause = .sizeOperandOutOfRange k d.operandCount) ∨
    d.operandCount ≤ maxOperandCount ∧ (∀ k ∈ d.sizeOperand, k < d.operandCount) ∧
      ∃ m ∈ d.memory, d.operandCount ≤ m.operand ∧
        cause = .memoryOperandOutOfRange m.operand d.operandCount := by
  unfold fault?
  split_ifs with hmax
  · simp [hmax, Nat.not_le_of_lt hmax, eq_comm (a := cause)]
  · have hcount : d.operandCount ≤ maxOperandCount := Nat.le_of_not_lt hmax
    simp [hmax, hcount, Option.filter_eq_some_iff, Option.filter_eq_none_iff, and_assoc,
      eq_comm (a := cause)]

/-- The branches are looked at only if no rule before them is broken. -/
theorem targets_eq_error_iff : d.targets = .error cause ↔
    d.fault? = some cause ∨
      d.fault? = none ∧ Targets.ofBranches d.operandCount d.branches = .error cause := by
  unfold targets
  cases d.fault? <;> simp

theorem targets_eq_error_iff_breaksFirst : d.targets = .error cause ↔ d.BreaksFirst cause := by
  rw [targets_eq_error_iff, Targets.ofBranches_eq_error_iff]
  constructor
  · rintro (hf | ⟨hf, k, t, ht, hfirst, hbad⟩)
    · obtain ⟨h, rfl⟩ | ⟨hcount, k, hk, h, rfl⟩ | ⟨hcount, hsize, m, hm, h, rfl⟩ :=
        fault?_eq_some_iff.1 hf
      · exact .tooManyOperands h
      · exact .sizeOperand hcount hk h
      · exact .memoryOperand hcount hsize hm h
    · obtain ⟨hcount, hsize, hmemory⟩ := fault?_eq_none_iff.1 hf
      obtain ⟨h, rfl⟩ | ⟨hlt, h, rfl⟩ := hbad
      · exact .branchOutOfRange hcount hsize hmemory ht hfirst h
      · exact .duplicateBranch hcount hsize hmemory ht hfirst hlt h
  · intro h
    rw [fault?_eq_some_iff, fault?_eq_none_iff]
    cases h with
    | tooManyOperands h => exact .inl (.inl ⟨h, rfl⟩)
    | sizeOperand hcount hk h => exact .inl (.inr (.inl ⟨hcount, _, hk, h, rfl⟩))
    | memoryOperand hcount hsize hm h =>
      exact .inl (.inr (.inr ⟨hcount, hsize, _, hm, h, rfl⟩))
    | branchOutOfRange hcount hsize hmemory ht hfirst h =>
      exact .inr ⟨⟨hcount, hsize, hmemory⟩, _, _, ht, hfirst, .inl ⟨h, rfl⟩⟩
    | duplicateBranch hcount hsize hmemory ht hfirst hlt h =>
      exact .inr ⟨⟨hcount, hsize, hmemory⟩, _, _, ht, hfirst, .inr ⟨hlt, h, rfl⟩⟩

theorem build_eq_error_iff {e : Defect} :
    d.build = .error e ↔ e.name = d.name ∧ d.BreaksFirst e.cause := by
  rw [← targets_eq_error_iff_breaksFirst]
  unfold build
  cases d.targets with
  | ok ts => simp
  | error c =>
    obtain ⟨name, c'⟩ := e
    simp [eq_comm]

theorem exists_build_eq_ok_iff : (∃ i, d.build = .ok i) ↔ d.Sound := by
  constructor
  · rintro ⟨i, hi⟩
    exact (build_eq_ok_iff.1 hi).1
  · intro h
    exact ⟨_, build_eq_ok_iff.2 ⟨h, rfl⟩⟩

/-- A draft that is not sound breaks exactly one rule first. -/
theorem not_sound_iff_existsUnique_breaksFirst : ¬ d.Sound ↔ ∃! cause, d.BreaksFirst cause := by
  have hreport {c : Cause} (hc : d.BreaksFirst c) : d.build = .error ⟨d.name, c⟩ :=
    build_eq_error_iff.2 ⟨rfl, hc⟩
  constructor
  · intro hs
    -- building always ends in an instruction or a defect, and here it is no instruction
    cases hb : d.build with
    | ok i => exact absurd (exists_build_eq_ok_iff.1 ⟨i, hb⟩) hs
    | error e =>
      refine ⟨e.cause, (build_eq_error_iff.1 hb).2, fun c hc => ?_⟩
      have he : e = ⟨d.name, c⟩ := Except.error.inj (hb.symm.trans (hreport hc))
      rw [he]
  · rintro ⟨c, hc, _⟩ hs
    obtain ⟨i, hi⟩ := exists_build_eq_ok_iff.2 hs
    exact absurd (hi.symm.trans (hreport hc)) nofun

/-- **A draft builds exactly when it is sound.** If it is not, it breaks exactly one rule first,
and that rule is the report, under the name of the draft. -/
theorem build_of_sound_or_first_defect (d : Draft) :
    ((∃ i, d.build = .ok i) ↔ d.Sound) ∧
    (¬ d.Sound ↔ ∃! cause, d.BreaksFirst cause) ∧
    ∀ e, d.build = .error e ↔ e.name = d.name ∧ d.BreaksFirst e.cause :=
  ⟨exists_build_eq_ok_iff, not_sound_iff_existsUnique_breaksFirst, fun _ => build_eq_error_iff⟩

/-- The repeated operand comes first in the list, so the one that does not exist is not seen. -/
example : (⟨"jexit", [.readAny], none, true, none,
    [.virtual 0, .native 0, .virtual 9], none⟩ : Draft).build =
      .error ⟨"jexit", .duplicateBranchTarget 0⟩ := rfl

end Draft

end VirtualIsa
