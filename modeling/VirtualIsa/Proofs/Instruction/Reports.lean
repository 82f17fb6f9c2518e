import VirtualIsa.Proofs.Instruction.Acceptance

/-!
# Reports that stay

Of the rules for drafts, those about branches are tried last, and branches are tried in the order in
which they were added. So whatever is added behind a defect is not looked at, and the defect stays
the report until an edit sets something that the rules look at before.

* `Draft.ExtendsTo d d'`: the draft `d'` has the settings of `d` that the rules look at, and perhaps
  more branches. `Draft.ExtendsTo.build_eq_error`: the report on `d` is that on `d'`;
* `Draft.Edit.canDisplace`, the edits of operands, size and memory access. Main statement:
  `Draft.report_outlasts_additions`, no other edit displaces a report, and each of these displaces
  one.
-/

namespace VirtualIsa

open Defect (Cause)

/-- A branch that cannot be placed is reported whatever branches follow. -/
theorem Targets.ofBranches_append_of_error {count : ℕ} {bs : List BranchTarget} {cause : Cause}
    (h : ofBranches count bs = .error cause) (cs : List BranchTarget) :
    ofBranches count (bs ++ cs) = .error cause := by
  rw [ofBranches_append, h]
  rfl

namespace Draft

variable {d d' d'' : Draft} {e : Defect} {cause : Cause}

/-! ### Drafts with more branches -/

/-- The draft `d'` has the settings of `d` as far as rules look at them, and perhaps further
branches behind those of `d`. -/
structure ExtendsTo (d d' : Draft) : Prop where
  name : d'.name = d.name
  operandCount : d'.operandCount = d.operandCount
  sizeOperand : d'.sizeOperand = d.sizeOperand
  memory : d'.memory = d.memory
  branches : d.branches <+: d'.branches

theorem ExtendsTo.refl (d : Draft) : d.ExtendsTo d :=
  ⟨rfl, rfl, rfl, rfl, List.prefix_refl _⟩

theorem ExtendsTo.trans (h : d.ExtendsTo d') (h' : d'.ExtendsTo d'') : d.ExtendsTo d'' where
  name := h'.name.trans h.name
  operandCount := h'.operandCount.trans h.operandCount
  sizeOperand := h'.sizeOperand.trans h.sizeOperand
  memory := h'.memory.trans h.memory
  branches := h.branches.trans h'.branches

theorem ExtendsTo.fault?_eq (h : d.ExtendsTo d') : d'.fault? = d.fault? := by
  simp only [fault?, h.operandCount, h.sizeOperand, h.memory]

/-- The first broken rule of a draft is that of every extension. -/
theorem ExtendsTo.targets_eq_error (h : d.ExtendsTo d') (he : d.targets = .error cause) :
    d'.targets = .error cause := by
  rw [targets_eq_error_iff] at he ⊢
  rw [h.fault?_eq, h.operandCount]
  rcases he with hf | ⟨hf, hb⟩
  · exact .inl hf
  · obtain ⟨cs, hcs⟩ := h.branches
    rw [← hcs]
    exact .inr ⟨hf, Targets.ofBranches_append_of_error hb cs⟩

/-- The report on a draft is that on every extension. -/
theorem ExtendsTo.build_eq_error (h : d.ExtendsTo d') (he : d.build = .error e) :
    d'.build = .error e := by
  rw [build_eq_error_iff, ← targets_eq_error_iff_breaksFirst] at he ⊢
  exact ⟨he.1.trans h.name.symm, h.targets_eq_error he.2⟩

/-! ### Edits that extend a draft, and the others -/

/-- The edit sets something that the rules look at before they come to the branches. -/
def Edit.canDisplace : Edit → Bool
  | operands _ | operand _ | sizeOperand _ | memory _ _ => true
  | volatile | operator _ | branch _ | continuesVirtual _ | exitsToNative _ => false

variable {f : Edit} {fs : List Edit}

theorem extendsTo_revise (d : Draft) (hf : ¬ f.canDisplace) : d.ExtendsTo (d.revise f) := by
  cases f with
  | operands | operand | sizeOperand | memory => exact absurd rfl hf
  | volatile | operator => exact ⟨rfl, rfl, rfl, rfl, List.prefix_refl _⟩
  | branch | continuesVirtual | exitsToNative => exact ⟨rfl, rfl, rfl, rfl, List.prefix_append _ _⟩

theorem extendsTo_reviseAll (d : Draft) (hfs : ∀ f ∈ fs, ¬ f.canDisplace) :
    d.ExtendsTo (d.reviseAll fs) := by
  induction fs generalizing d with
  | nil => exact .refl d
  | cons f fs ih =>
    obtain ⟨hf, hrest⟩ := List.forall_mem_cons.1 hfs
    exact (d.extendsTo_revise hf).trans (ih _ hrest)

/-- Where a run of edits loses a report, one of its edits does. -/
theorem exists_displacing_edit (he : d.build = .error e) (h : (d.reviseAll fs).build ≠ .error e) :
    ∃ gs f hs, fs = gs ++ f :: hs ∧ f.canDisplace ∧ (d.reviseAll gs).build = .error e ∧
      (d.reviseAll (gs ++ [f])).build ≠ .error e := by
  induction fs generalizing d with
  | nil => exact absurd he h
  | cons f fs ih =>
    by_cases hstep : (d.revise f).build = .error e
    · obtain ⟨gs, g, hs, rfl, hg, hkept, hlost⟩ := ih hstep h
      exact ⟨f :: gs, g, hs, rfl, hg, hkept, hlost⟩
    · refine ⟨[], f, fs, rfl, ?_, he, hstep⟩
      by_contra hf
      exact hstep ((d.extendsTo_revise hf).build_eq_error he)

theorem build_of_tooManyOperands (h : maxOperandCount < d.operandCount) :
    d.build = .error ⟨d.name, .tooManyOperands d.operandCount maxOperandCount⟩ :=
  build_eq_error_iff.2 ⟨rfl, .tooManyOperands h⟩

/-- A report of too many operands shows how many there are. -/
theorem operandCount_of_tooManyOperands {name : String} {count max : ℕ}
    (h : d.build = .error ⟨name, .tooManyOperands count max⟩) : d.operandCount = count := by
  obtain ⟨-, hfirst⟩ := build_eq_error_iff.1 h
  cases hfirst with
  | tooManyOperands => rfl

/-- Without operands there is none to set the size. -/
theorem build_blank_sizeOperand (name : String) (k : ℕ) :
    ((blank name).revise (.sizeOperand k)).build = .error ⟨name, .sizeOperandOutOfRange k 0⟩ :=
  build_eq_error_iff.2 ⟨rfl, .sizeOperand (Nat.zero_le _) rfl (Nat.zero_le k)⟩

/-- Without operands there is none to hold an address. -/
theorem build_blank_memory (name : String) (k : ℕ) (write : Bool) :
    ((blank name).revise (.memory k write)).build = .error ⟨name, .memoryOperandOutOfRange k 0⟩ :=
  build_eq_error_iff.2 ⟨rfl, .memoryOperand (m := ⟨k, write⟩) (Nat.zero_le _) nofun rfl
    (Nat.zero_le k)⟩

theorem exists_le_one_ne (k : ℕ) : ∃ j ≤ 1, j ≠ k := by
  by_cases hk : k = 0
  · exact ⟨1, Nat.le_refl 1, by omega⟩
  · exact ⟨0, Nat.zero_le 1, Ne.symm hk⟩

/-- Every edit of operands, size or memory access displaces a report, and one on a draft of a single
edit: it has five or six operands, or refers to one of the first two operands without having any. -/
theorem exists_displaced (name : String) (hf : f.canDisplace) :
    ∃ j ≤ 1, ∃ g ∈ [Edit.operands (.replicate (5 + j) .readAny), .sizeOperand j, .memory j true],
      ∃ e, ((blank name).reviseAll [g]).build = .error e ∧
        ((blank name).reviseAll ([g] ++ [f])).build ≠ .error e := by
  -- the report shows a number, of operands or of one operand, which the edit changes
  cases f with
  | operands all =>
    obtain ⟨j, hj, hne⟩ := exists_le_one_ne (all.length - 5)
    have hmany : maxOperandCount < (List.replicate (5 + j) Access.readAny).length := by
      rw [List.length_replicate, maxOperandCount]
      omega
    refine ⟨j, hj, _, List.mem_cons_self, _, build_of_tooManyOperands hmany, fun h => ?_⟩
    have hcount : all.length = (List.replicate (5 + j) Access.readAny).length :=
      operandCount_of_tooManyOperands h
    rw [List.length_replicate] at hcount
    omega
  | operand one =>
    refine ⟨0, Nat.zero_le 1, _, List.mem_cons_self, _,
      build_of_tooManyOperands (show 4 < 5 by decide), fun h => ?_⟩
    have hcount := operandCount_of_tooManyOperands h
    simp [operandCount, revise] at hcount
  | sizeOperand k =>
    obtain ⟨j, hj, hne⟩ := exists_le_one_ne k
    refine ⟨j, hj, .sizeOperand j, by simp, _, build_blank_sizeOperand name j, fun h => hne ?_⟩
    have hreport := (build_blank_sizeOperand name k).symm.trans h
    simpa using hreport.symm
  | memory k write =>
    obtain ⟨j, hj, hne⟩ := exists_le_one_ne k
    refine ⟨j, hj, .memory j true, by simp, _, build_blank_memory name j true, fun h => hne ?_⟩
    have hreport := (build_blank_memory name k write).symm.trans h
    simpa using hreport.symm
  | volatile | operator | branch | continuesVirtual | exitsToNative => exact absurd hf nofun

/-- **A report outlasts whatever is added behind the defect.** Branches through any operands, the
volatile flag and operators leave the report on a draft as it is, with its cause, index and count.
Where a run of edits loses the report, the edit that loses it sets operands, size or memory access;
and each such edit displaces the report on some draft. -/
theorem report_outlasts_additions (name : String) :
    (∀ es fs e, ((blank name).reviseAll es).build = .error e → (∀ f ∈ fs, ¬ f.canDisplace) →
      ((blank name).reviseAll (es ++ fs)).build = .error e) ∧
    (∀ es fs e, ((blank name).reviseAll es).build = .error e →
      ((blank name).reviseAll (es ++ fs)).build ≠ .error e →
      ∃ gs f hs, fs = gs ++ f :: hs ∧ f.canDisplace ∧
        ((blank name).reviseAll (es ++ gs)).build = .error e ∧
        ((blank name).reviseAll (es ++ gs ++ [f])).build ≠ .error e) ∧
    ∀ f : Edit, f.canDisplace ↔
      ∃ es e, ((blank name).reviseAll es).build = .error e ∧
        ((blank name).reviseAll (es ++ [f])).build ≠ .error e := by
  refine ⟨fun es fs e he hfs => ?_, fun es fs e he h => ?_, fun f => ⟨fun hf => ?_, ?_⟩⟩
  · rw [reviseAll_append]
    exact (extendsTo_reviseAll _ hfs).build_eq_error he
  · rw [reviseAll_append] at h
    obtain ⟨gs, f, hs, hfs, hf, hkept, hlost⟩ := exists_displacing_edit he h
    simp only [List.append_assoc, reviseAll_append (blank name) es]
    exact ⟨gs, f, hs, hfs, hf, hkept, hlost⟩
  · obtain ⟨-, -, g, -, e, he, h⟩ := exists_displaced name hf
    exact ⟨[g], e, he, h⟩
  · rintro ⟨es, e, he, h⟩
    by_contra hf
    rw [reviseAll_append] at h
    exact h ((extendsTo_revise _ hf).build_eq_error he)

/-- A branch in front of its operand is reported whatever branches, flags and operators follow, and
until there are enough operands; then a repeated branch is. -/
theorem report_on_early_branch :
    ((blank "jexit").reviseAll [.operand .readAny, .continuesVirtual 1]).build =
      .error ⟨"jexit", .branchTargetOutOfRange 1 1⟩ ∧
    ((blank "jexit").reviseAll ([.operand .readAny, .continuesVirtual 1] ++
      [.exitsToNative 0, .volatile, .branch (.virtual 0), .branch (.native 9)])).build =
      .error ⟨"jexit", .branchTargetOutOfRange 1 1⟩ ∧
    ((blank "jexit").reviseAll ([.operand .readAny, .continuesVirtual 1] ++
      [.exitsToNative 1, .operand .readAny])).build = .error ⟨"jexit", .duplicateBranchTarget 1⟩ ∧
    ∃ f ∈ [Edit.exitsToNative 1, .operand .readAny], f.canDisplace := by
  have he : ((blank "jexit").reviseAll [.operand .readAny, .continuesVirtual 1]).build =
      .error ⟨"jexit", .branchTargetOutOfRange 1 1⟩ := rfl
  obtain ⟨hstays, hlost, -⟩ := report_outlasts_additions "jexit"
  obtain ⟨gs, f, hs, hfs, hf, -⟩ := hlost _ [.exitsToNative 1, .operand .readAny] _ he (by decide)
  exact ⟨he, hstays _ _ _ he (by decide), rfl, f, by simp [hfs], hf⟩

end Draft

end VirtualIsa
