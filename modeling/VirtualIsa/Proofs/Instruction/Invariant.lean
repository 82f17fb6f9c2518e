import VirtualIsa.Catalog.Standard
import VirtualIsa.Proofs.Instruction.Targets

/-!
# The invariant of instructions

Instructions are plain data, but whoever meets one has got it from a draft, from a table row
or from the standard catalog, and each of these ways passes the same check.

* `Instruction.Obtained`, the instructions that can be met, and
  `Instruction.Obtained.wellFormed`;
* what a well-formed instruction answers: every operand is a target of at most one kind, there
  are no more targets than operands, and the questions about branching come down to the
  operands. Main statement: `Instruction.wellFormed_and_branch_answers`.
-/

namespace VirtualIsa

namespace Instruction

/-- The instructions that can be met: drafts that were edited from a blank one and built, table
rows that were built, and the entries of the standard catalog. -/
inductive Obtained : Instruction → Prop
  | draft {i : Instruction} (name : String) (es : List Draft.Edit)
    (h : ((Draft.blank name).reviseAll es).build = .ok i) : Obtained i
  | row {i : Instruction} (r : Row) (h : r.build = .ok i) : Obtained i
  | standard {i : Instruction} (h : i ∈ Catalog.standard.toList) : Obtained i

/-! ### Every way passes the check -/

theorem wellFormed_of_build {d : Draft} {i : Instruction} (h : d.build = .ok i) :
    i.WellFormed := by
  obtain ⟨hs, rfl⟩ := Draft.build_eq_ok_iff.1 h
  have hnodup := Targets.nodup_append_ofList hs.nodup_branches
  rw [List.nodup_append'] at hnodup
  exact {
    operandCount_le := hs.operandCount_le
    sizeOperand_lt := hs.sizeOperand_lt
    memory_lt := hs.memory_lt
    target_lt := fun k hk => by
      obtain ⟨t, ht, rfl⟩ := List.mem_map.1 (Targets.mentions_ofList.1 hk)
      exact hs.branch_lt t ht
    nodup_virtual := hnodup.1
    nodup_native := hnodup.2.1
    disjoint := fun k hv hn => hnodup.2.2 hv hn }

theorem wellFormed_of_row {r : Row} {i : Instruction} (h : r.build = .ok i) : i.WellFormed := by
  obtain ⟨d, -, hd⟩ := Row.build_eq_ok_iff.1 h
  exact wellFormed_of_build hd

theorem Obtained.wellFormed {i : Instruction} (h : i.Obtained) : i.WellFormed := by
  cases h with
  | draft name es h => exact wellFormed_of_build h
  | row r h => exact wellFormed_of_row h
  | standard h =>
    rw [Catalog.toList_standard] at h
    obtain ⟨op, _, rfl⟩ := List.mem_map.1 h
    exact wellFormed_of_row op.build_row

/-! ### Answers of well-formed instructions -/

theorem branchTarget?_eq_virtual_iff {i : Instruction} {k : ℕ} :
    i.branchTarget? k = some (.virtual k) ↔ k ∈ i.targets.virtual :=
  Targets.find?_eq_virtual_iff

/-- Of a list of numbers below `n`, some number is a member unless it is empty. -/
theorem not_isEmpty_iff_exists_lt {ks : List ℕ} {n : ℕ} (h : ∀ k ∈ ks, k < n) :
    !ks.isEmpty ↔ ∃ k < n, k ∈ ks := by
  constructor
  · intro hne
    obtain ⟨k, hk⟩ := List.exists_mem_of_ne_nil ks (by simpa using hne)
    exact ⟨k, h k hk, hk⟩
  · rintro ⟨k, _, hk⟩
    simpa using List.ne_nil_of_mem hk

namespace WellFormed

variable {i : Instruction} {k : ℕ}

/-- There are no more targets than operands, whatever their kinds. -/
theorem length_targets_le (h : i.WellFormed) :
    i.targets.virtual.length + i.targets.native.length ≤ i.operandCount := by
  have hnodup : (i.targets.virtual ++ i.targets.native).Nodup :=
    List.nodup_append'.2 ⟨h.nodup_virtual, h.nodup_native, fun k hv hn => h.disjoint k hv hn⟩
  have hsub : i.targets.virtual ++ i.targets.native ⊆ List.range i.operandCount := by
    intro k hk
    rw [List.mem_range]
    exact h.target_lt k (Targets.mentions_iff.2 (List.mem_append.1 hk))
  calc i.targets.virtual.length + i.targets.native.length
      = (i.targets.virtual ++ i.targets.native).length := List.length_append.symm
    _ ≤ (List.range i.operandCount).length := hnodup.length_le_of_subset hsub
    _ = i.operandCount := List.length_range

theorem branchTarget?_eq_native_iff (h : i.WellFormed) :
    i.branchTarget? k = some (.native k) ↔ k ∈ i.targets.native :=
  Targets.find?_eq_native_iff h.disjoint

/-- An operand that holds a target exists. -/
theorem lt_of_branchTarget?_ne_none (h : i.WellFormed) (hk : i.branchTarget? k ≠ none) :
    k < i.operandCount :=
  h.target_lt k (Targets.isSome_find?_iff.1 (Option.isSome_iff_ne_none.2 hk))

theorem branchesVirtually_iff (h : i.WellFormed) :
    i.branchesVirtually ↔ ∃ k < i.operandCount, i.branchTarget? k = some (.virtual k) := by
  simp only [branchTarget?_eq_virtual_iff]
  exact not_isEmpty_iff_exists_lt fun k hk => h.target_lt k (Targets.mentions_iff.2 (.inl hk))

theorem branchesNatively_iff (h : i.WellFormed) :
    i.branchesNatively ↔ ∃ k < i.operandCount, i.branchTarget? k = some (.native k) := by
  simp only [h.branchTarget?_eq_native_iff]
  exact not_isEmpty_iff_exists_lt fun k hk => h.target_lt k (Targets.mentions_iff.2 (.inr hk))

theorem branches_iff (h : i.WellFormed) :
    i.branches ↔ ∃ k < i.operandCount, i.branchTarget? k ≠ none := by
  rw [branches, Bool.or_eq_true, h.branchesVirtually_iff, h.branchesNatively_iff]
  constructor
  · rintro (⟨k, hlt, hk⟩ | ⟨k, hlt, hk⟩)
    · exact ⟨k, hlt, by simp [hk]⟩
    · exact ⟨k, hlt, by simp [hk]⟩
  · rintro ⟨k, hlt, hk⟩
    -- the answer is about the operand that was asked for
    obtain ⟨t, ht⟩ := Option.ne_none_iff_exists'.1 hk
    have hop : t.operand = k := Targets.operand_of_find? ht
    cases t with
    | virtual j => cases hop; exact .inl ⟨_, hlt, ht⟩
    | native j => cases hop; exact .inr ⟨_, hlt, ht⟩

end WellFormed

/-- **Whatever instruction is met, it is well formed**, has no more targets than operands, and
answers for each operand by the one list that the operand is in. -/
theorem wellFormed_and_branch_answers {i : Instruction} (h : i.Obtained) :
    i.WellFormed ∧
    i.targets.virtual.length + i.targets.native.length ≤ i.operandCount ∧
    (∀ k, (i.branchTarget? k = some (.virtual k) ↔ k ∈ i.targets.virtual) ∧
      (i.branchTarget? k = some (.native k) ↔ k ∈ i.targets.native) ∧
      (i.branchTarget? k = none ↔ k ∉ i.targets.virtual ∧ k ∉ i.targets.native) ∧
      (i.operandCount ≤ k → i.branchTarget? k = none)) ∧
    (i.branches ↔ ∃ k < i.operandCount, i.branchTarget? k ≠ none) ∧
    (i.branchesVirtually ↔ ∃ k < i.operandCount, i.branchTarget? k = some (.virtual k)) ∧
    (i.branchesNatively ↔ ∃ k < i.operandCount, i.branchTarget? k = some (.native k)) := by
  have hw := h.wellFormed
  refine ⟨hw, hw.length_targets_le, fun k => ⟨branchTarget?_eq_virtual_iff,
    hw.branchTarget?_eq_native_iff, Targets.find?_eq_none_iff, fun hle => ?_⟩,
    hw.branches_iff, hw.branchesVirtually_iff, hw.branchesNatively_iff⟩
  by_contra hne
  exact Nat.not_le_of_lt (hw.lt_of_branchTarget?_ne_none hne) hle

/-- A conditional exit, with a target of each kind. -/
theorem conditionalExit_branch_answers :
    ∃ i : Instruction, ((Draft.blank "jexit").reviseAll
        [.operands [.readReg, .readAny, .readAny], .sizeOperand 1, .volatile,
          .continuesVirtual 1, .exitsToNative 2]).build = .ok i ∧ i.Obtained ∧
      i.WellFormed ∧ i.branchTarget? 0 = none ∧ i.branchTarget? 1 = some (.virtual 1) ∧
      i.branchTarget? 2 = some (.native 2) ∧ i.branchTarget? 3 = none := by
  have hb : ((Draft.blank "jexit").reviseAll
      [.operands [.readReg, .readAny, .readAny], .sizeOperand 1, .volatile,
        .continuesVirtual 1, .exitsToNative 2]).build =
      .ok ⟨"jexit", [.readReg, .readAny, .readAny], some 1, true, none, ⟨[1], [2]⟩, none⟩ := rfl
  obtain ⟨hw, -, hk, -⟩ := wellFormed_and_branch_answers (.draft _ _ hb)
  exact ⟨_, hb, .draft _ _ hb, hw, (hk 0).2.2.1.2 (by decide), (hk 1).1.2 (by decide),
    (hk 2).2.1.2 (by decide), (hk 3).2.2.2 (by decide)⟩

end Instruction

end VirtualIsa
