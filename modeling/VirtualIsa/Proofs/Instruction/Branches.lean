import VirtualIsa.Proofs.Instruction.Settings
import VirtualIsa.Proofs.Instruction.Targets

/-!
# What becomes of the branches

An instruction keeps its branches in two lists, one for each kind, and an operand is answered by a
search through the one and then the other. Nothing of the branches that were asked for gets lost on
the way, and nothing is added.

* `Targets.find?_ofList_eq_some_iff`: an operand answers with the branch that goes through it;
* `Instruction.Records i bs`: the targets of the instruction are the branches, each kind in their
  order. Main statement: `Instruction.build_records_branches`, for edits and for table rows, where
  the answers are read off the signed entries.
-/

namespace VirtualIsa

namespace BranchTarget

variable {t : BranchTarget} {k : ℕ}

theorem virtual?_eq_some_iff : t.virtual? = some k ↔ t = .virtual k := by
  cases t <;> simp [virtual?]

theorem native?_eq_some_iff : t.native? = some k ↔ t = .native k := by
  cases t <;> simp [native?]

/-- The sign tells the kinds apart, as no target has the number zero. -/
theorem signed_inj {s t : BranchTarget} : s.signed = t.signed ↔ s = t := by
  cases s <;> cases t <;>
    simp only [signed, virtual.injEq, native.injEq, reduceCtorEq, iff_false] <;> omega

end BranchTarget

namespace Targets

variable {bs : List BranchTarget} {t : BranchTarget} {k : ℕ}

theorem mem_virtual_ofList : k ∈ (ofList bs).virtual ↔ .virtual k ∈ bs := by
  simp [ofList, BranchTarget.virtual?_eq_some_iff]

theorem mem_native_ofList : k ∈ (ofList bs).native ↔ .native k ∈ bs := by
  simp [ofList, BranchTarget.native?_eq_some_iff]

/-- An operand answers with the branch through it. The order of the search does not matter, as no
other branch goes through the operand. -/
theorem find?_ofList_eq_some_iff (h : (bs.map (·.operand)).Nodup) :
    (ofList bs).find? k = some t ↔ t ∈ bs ∧ t.operand = k := by
  have hdisjoint := (List.nodup_append'.1 (nodup_append_ofList h)).2.2
  -- the answer is about the operand that was asked for
  have hask : (ofList bs).find? k = some t ↔
      (ofList bs).find? t.operand = some t ∧ t.operand = k :=
    ⟨fun hf => ⟨operand_of_find? hf ▸ hf, operand_of_find? hf⟩, fun ⟨hf, hk⟩ => hk ▸ hf⟩
  rw [hask]
  refine and_congr_left fun _ => ?_
  cases t with
  | virtual j => exact find?_eq_virtual_iff.trans mem_virtual_ofList
  | native j =>
    exact (find?_eq_native_iff fun _ hv hn => hdisjoint hv hn).trans mem_native_ofList

end Targets

namespace Instruction

variable {i : Instruction} {bs : List BranchTarget}

/-- The targets of the instruction are the given branches: each kind in their order, none more and
none fewer, and each found under its operand. -/
structure Records (i : Instruction) (bs : List BranchTarget) : Prop where
  virtual_eq : i.targets.virtual = bs.filterMap (·.virtual?)
  native_eq : i.targets.native = bs.filterMap (·.native?)
  length_eq : i.targets.virtual.length + i.targets.native.length = bs.length
  branchTarget?_eq_some_iff : ∀ k t, i.branchTarget? k = some t ↔ t ∈ bs ∧ t.operand = k

theorem records_of_build {d : Draft} (h : d.build = .ok i) : i.Records d.branches := by
  obtain ⟨hs, rfl⟩ := Draft.build_eq_ok_iff.1 h
  exact {
    virtual_eq := rfl
    native_eq := rfl
    length_eq := by
      have hlength := (Targets.perm_ofList d.branches).length_eq
      rwa [List.length_append, List.length_map] at hlength
    branchTarget?_eq_some_iff := fun k t => Targets.find?_ofList_eq_some_iff hs.nodup_branches }

theorem exists_records_of_row {r : Row} (h : r.build = .ok i) :
    ∃ bs : List BranchTarget, r.branches.map (·.toInt) = bs.map (·.signed) ∧ i.Records bs := by
  obtain ⟨d, hd, hb⟩ := Row.build_eq_ok_iff.1 h
  obtain ⟨bs, hbs, hd'⟩ := Option.bind_eq_some_iff.1 hd
  cases hd'
  exact ⟨bs, BranchTarget.ofSignedList?_eq_some_iff.1 hbs, records_of_build hb⟩

/-- A target of a table row is found under its operand when its entry is in the row. -/
theorem Records.branchTarget?_iff_mem_signed (h : i.Records bs) {entries : List Int32}
    (he : entries.map (·.toInt) = bs.map (·.signed)) (t : BranchTarget) :
    i.branchTarget? t.operand = some t ↔ ∃ e ∈ entries, e.toInt = t.signed := by
  rw [h.branchTarget?_eq_some_iff, and_iff_left rfl, ← List.mem_map, he, List.mem_map]
  simp [BranchTarget.signed_inj]

/-- **No branch is lost, invented or changed**, whether an instruction is made by edits or read from
a table row. -/
theorem build_records_branches :
    (∀ (name : String) (es : List Draft.Edit) (i : Instruction),
      ((Draft.blank name).reviseAll es).build = .ok i →
        i.Records (es.filterMap Draft.Edit.branch?)) ∧
    ∀ (r : Row) (i : Instruction), r.build = .ok i →
      (∃ bs : List BranchTarget, r.branches.map (·.toInt) = bs.map (·.signed) ∧ i.Records bs) ∧
      ∀ k : ℕ, (i.branchTarget? k = some (.virtual k) ↔ ∃ e ∈ r.branches, e.toInt = k + 1) ∧
        (i.branchTarget? k = some (.native k) ↔ ∃ e ∈ r.branches, e.toInt = -(k + 1)) := by
  constructor
  · intro name es i h
    rw [Draft.reviseAll_blank] at h
    exact records_of_build h
  · intro r i h
    obtain ⟨bs, he, hr⟩ := exists_records_of_row h
    exact ⟨⟨bs, he, hr⟩, fun k => ⟨hr.branchTarget?_iff_mem_signed he (.virtual k),
      hr.branchTarget?_iff_mem_signed he (.native k)⟩⟩

/-- Four branches with their kinds in turn, by edits and from a row. -/
theorem switch_records_branches :
    ∃ i : Instruction,
      ((Draft.blank "switch").reviseAll [.exitsToNative 2, .continuesVirtual 1, .branch (.native 0),
        .operands (.replicate 4 .readAny), .branch (.virtual 3)]).build = .ok i ∧
      i.Records [.native 2, .virtual 1, .native 0, .virtual 3] ∧ i.targets = ⟨[1, 3], [2, 0]⟩ ∧
      (⟨"switch", .replicate 4 .readAny, 0, false, none, [-3, 2, -1, 4], 0, false⟩ : Row).build =
        .ok i ∧
      i.branchTarget? 2 = some (.native 2) ∧ i.branchTarget? 2 ≠ some (.virtual 2) := by
  have hedits : ((Draft.blank "switch").reviseAll [.exitsToNative 2, .continuesVirtual 1,
      .branch (.native 0), .operands (.replicate 4 .readAny), .branch (.virtual 3)]).build =
      .ok ⟨"switch", .replicate 4 .readAny, none, false, none, ⟨[1, 3], [2, 0]⟩, none⟩ := rfl
  have hrow : (⟨"switch", .replicate 4 .readAny, 0, false, none, [-3, 2, -1, 4], 0, false⟩ :
      Row).build =
      .ok ⟨"switch", .replicate 4 .readAny, none, false, none, ⟨[1, 3], [2, 0]⟩, none⟩ := rfl
  obtain ⟨hvirtual, hnative⟩ := (build_records_branches.2 _ _ hrow).2 2
  exact ⟨_, hedits, build_records_branches.1 _ _ _ hedits, rfl, hrow,
    hnative.2 ⟨-3, by decide, by decide⟩, fun h => absurd (hvirtual.1 h) (by decide)⟩

end Instruction

end VirtualIsa
