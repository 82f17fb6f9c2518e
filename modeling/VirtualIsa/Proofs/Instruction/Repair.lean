import VirtualIsa.Proofs.Instruction.Acceptance
import VirtualIsa.Proofs.Instruction.Settings

/-!
# Drafts that can still be repaired

Operands, size and memory access of a draft can be set again, but a branch that was added stays. So
of all that can be wrong with a draft, only its branches can be wrong for good.

* `Draft.branches_isPrefix_reviseAll`: no run of edits takes a branch away;
* `Draft.repair`, edits that give a draft as many operands as there can be, and references to the
  first of them. `Draft.repairable_iff_repair`: these edits repair whatever can be repaired. Main
  statement: `Draft.repairable_iff_branches`, after any run of edits, a draft can be repaired
  exactly when the branches of the run are through distinct operands that there can be.
-/

namespace VirtualIsa

namespace Draft

variable {d : Draft}

/-- Some further edits make the draft build. -/
def Repairable (d : Draft) : Prop := ∃ es i, (d.reviseAll es).build = .ok i

/-! ### What cannot be repaired -/

/-- The branches that were added stay at the front. -/
theorem branches_isPrefix_reviseAll (d : Draft) (es : List Edit) :
    d.branches <+: (d.reviseAll es).branches := by
  induction es generalizing d with
  | nil => exact List.prefix_refl _
  | cons e es ih =>
    obtain ⟨ts, hts⟩ := d.branches_revise e
    have hstep : d.branches <+: (d.revise e).branches := hts ▸ List.prefix_append _ _
    exact hstep.trans (ih _)

/-- The branches of a draft that builds are through distinct operands, of which there are not too
many; and so are those of every draft that it came from. -/
theorem Repairable.branches (h : d.Repairable) :
    (d.branches.map (·.operand)).Nodup ∧ ∀ t ∈ d.branches, t.operand < maxOperandCount := by
  obtain ⟨es, i, hi⟩ := h
  have hs := (build_eq_ok_iff.1 hi).1
  have hkept := d.branches_isPrefix_reviseAll es
  constructor
  · exact hs.nodup_branches.sublist (hkept.sublist.map _)
  · intro t ht
    exact Nat.lt_of_lt_of_le (hs.branch_lt t (hkept.subset ht)) hs.operandCount_le

/-! ### What can be repaired -/

/-- Edits that give every operand there can be, and let the size and the memory access refer to the
first one. -/
def repair : List Edit :=
  [.operands (List.replicate maxOperandCount .readAny), .sizeOperand 0, .memory 0 false]

theorem sound_reviseAll_repair (hnodup : (d.branches.map (·.operand)).Nodup)
    (hlt : ∀ t ∈ d.branches, t.operand < maxOperandCount) : (d.reviseAll repair).Sound where
  operandCount_le := Nat.le_refl maxOperandCount
  sizeOperand_lt := by
    rintro _ ⟨⟩
    exact (by decide : 0 < maxOperandCount)
  memory_lt := by
    rintro _ ⟨⟩
    exact (by decide : 0 < maxOperandCount)
  branch_lt := hlt
  nodup_branches := hnodup

/-- Whatever can be repaired is repaired by one and the same run of edits. -/
theorem repairable_iff_repair : d.Repairable ↔ ∃ i, (d.reviseAll repair).build = .ok i := by
  constructor
  · intro h
    obtain ⟨hnodup, hlt⟩ := h.branches
    exact exists_build_eq_ok_iff.2 (sound_reviseAll_repair hnodup hlt)
  · rintro ⟨i, hi⟩
    exact ⟨repair, i, hi⟩

/-- A draft can be repaired when its branches are through distinct operands that there can be. -/
theorem repairable_iff : d.Repairable ↔
    (d.branches.map (·.operand)).Nodup ∧ ∀ t ∈ d.branches, t.operand < maxOperandCount := by
  constructor
  · exact Repairable.branches
  · rintro ⟨hnodup, hlt⟩
    exact repairable_iff_repair.2
      (exists_build_eq_ok_iff.2 (sound_reviseAll_repair hnodup hlt))

/-- A draft is lost when it does not build after any further edits. -/
theorem forall_build_eq_error_iff :
    (∀ es, ∃ e, (d.reviseAll es).build = .error e) ↔ ¬ d.Repairable := by
  constructor
  · rintro h ⟨es, i, hi⟩
    obtain ⟨e, he⟩ := h es
    cases hi.symm.trans he
  · intro h es
    cases hb : (d.reviseAll es).build with
    | ok i => exact absurd ⟨es, i, hb⟩ h
    | error e => exact ⟨e, rfl⟩

/-- **Only branches can be wrong for good.** A draft can be repaired exactly when the branches that
were added so far are through distinct operands, whatever their kinds, and none is through an
operand that there cannot be. A draft for which this fails does not build after any further edits,
and every other draft builds after `repair`. -/
theorem repairable_iff_branches (name : String) (es : List Edit) :
    (((blank name).reviseAll es).Repairable ↔
      ((es.filterMap Edit.branch?).map (·.operand)).Nodup ∧
        ∀ t ∈ es.filterMap Edit.branch?, t.operand < maxOperandCount) ∧
    ((∀ fs, ∃ e, ((blank name).reviseAll (es ++ fs)).build = .error e) ↔
      (∃ k, RepeatsAt BranchTarget.operand (es.filterMap Edit.branch?) k) ∨
        ∃ t ∈ es.filterMap Edit.branch?, maxOperandCount ≤ t.operand) ∧
    (((blank name).reviseAll es).Repairable ↔
      ∃ i, ((blank name).reviseAll (es ++ repair)).build = .ok i) := by
  have hbranches : ((blank name).reviseAll es).branches = es.filterMap Edit.branch? := by
    rw [reviseAll_blank, settled]
  have hiff := repairable_iff (d := (blank name).reviseAll es)
  rw [hbranches] at hiff
  refine ⟨hiff, ?_, ?_⟩
  · simp only [reviseAll_append]
    rw [forall_build_eq_error_iff, hiff, nodup_map_iff, not_and_or]
    simp only [not_forall, not_not, not_lt, exists_prop]
  · rw [reviseAll_append]
    exact repairable_iff_repair

end Draft

end VirtualIsa
