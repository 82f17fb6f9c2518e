import Mathlib.Data.List.Perm.Basic
import VirtualIsa.Proofs.Instruction.Acceptance
import VirtualIsa.Proofs.Instruction.Branches

/-!
# Rows that describe one instruction

Rows can differ and still describe one instruction: of the order of its branches an instruction
keeps only the order within each kind, and the write flag of a row means nothing without a memory
operand. That is all that gets lost. Whether a row builds does not depend on the order of its
branches at all, though the defect that is reported does.

* `BranchTarget.ofSignedList?_filter`: the entries of one sign are the branches of one kind;
* `Row.Describes r i`: every part of the instruction is what the row says. Main statement:
  `Row.build_forgets_interleaving`, which rows describe one instruction, and what the same branches
  in another order describe.
-/

namespace VirtualIsa

namespace BranchTarget

variable {entry : Int32} {entries entries' : List Int32} {t : BranchTarget}
  {bs bs' : List BranchTarget}

/-! ### Entries by sign -/

theorem ofSignedList?_cons_eq_some_iff : ofSignedList? (entry :: entries) = some bs ↔
    ∃ t ts, ofSigned? entry = some t ∧ ofSignedList? entries = some ts ∧ t :: ts = bs := by
  simp [ofSignedList?, Option.bind_eq_some_iff]

/-- Different entries are read as different targets. -/
theorem ofSignedList?_inj (h : ofSignedList? entries = some bs)
    (h' : ofSignedList? entries' = some bs') : entries = entries' ↔ bs = bs' := by
  rw [ofSignedList?_eq_some_iff] at h h'
  rw [← (List.map_injective_iff.2 fun _ _ => Int32.toInt_inj.1).eq_iff, h, h']
  exact (List.map_injective_iff.2 fun _ _ => signed_inj.1).eq_iff

/-- The entries with a property are read as the branches of a kind, in their order, if it is the
kind of exactly those targets whose entries have the property. -/
theorem ofSignedList?_filter {p : Int32 → Bool} {kind? : BranchTarget → Option ℕ}
    {target : ℕ → BranchTarget}
    (hp : ∀ entry t, ofSigned? entry = some t →
      (kind? t).map target = if p entry then some t else none)
    (h : ofSignedList? entries = some bs) :
    ofSignedList? (entries.filter p) = some ((bs.filterMap kind?).map target) := by
  induction entries generalizing bs with
  | nil =>
    cases h
    rfl
  | cons entry entries ih =>
    obtain ⟨t, ts, ht, hts, rfl⟩ := ofSignedList?_cons_eq_some_iff.1 h
    have hkind := hp entry t ht
    rw [List.filter_cons]
    split_ifs at hkind ⊢ with hentry
    · obtain ⟨k, hk, rfl⟩ := Option.map_eq_some_iff.1 hkind
      rw [List.filterMap_cons_some hk, List.map_cons]
      exact ofSignedList?_cons_eq_some_iff.2 ⟨_, _, ht, ih hts, rfl⟩
    · rw [List.filterMap_cons_none (Option.map_eq_none_iff.1 hkind)]
      exact ih hts

/-- The sign of an entry tells the kind of its target. -/
theorem sign_iff_kind (h : ofSigned? entry = some t) :
    (0 < entry ↔ t.virtual?.isSome) ∧ (entry < 0 ↔ t.native?.isSome) := by
  have hsigned := ofSigned?_eq_some_iff.1 h
  rw [Int32.lt_iff_toInt_lt, Int32.lt_iff_toInt_lt, hsigned, Int32.toInt_zero]
  cases t with
  | virtual k =>
    have hpos : 0 < (virtual k).signed := Int.natCast_succ_pos k
    exact ⟨iff_of_true hpos rfl, iff_of_false (Int.not_lt.2 (Int.le_of_lt hpos)) nofun⟩
  | native k =>
    have hneg : (native k).signed < 0 := Int.negSucc_lt_zero k
    exact ⟨iff_of_false (Int.not_lt.2 (Int.le_of_lt hneg)) nofun, iff_of_true hneg rfl⟩

/-- The positive entries are the virtual branches. -/
theorem ofSignedList?_filter_pos (h : ofSignedList? entries = some bs) :
    ofSignedList? (entries.filter (0 < ·)) = some ((bs.filterMap (·.virtual?)).map .virtual) := by
  refine ofSignedList?_filter (fun entry t ht => ?_) h
  cases t <;> simp [(sign_iff_kind ht).1, virtual?]

/-- The negative entries are the native branches. -/
theorem ofSignedList?_filter_neg (h : ofSignedList? entries = some bs) :
    ofSignedList? (entries.filter (· < 0)) = some ((bs.filterMap (·.native?)).map .native) := by
  refine ofSignedList?_filter (fun entry t ht => ?_) h
  cases t <;> simp [(sign_iff_kind ht).2, native?]

/-! ### Entries in another order -/

/-- Only a zero keeps entries from being read. -/
theorem exists_ofSignedList? (h : 0 ∉ entries) : ∃ ts, ofSignedList? entries = some ts :=
  Option.ne_none_iff_exists'.1 (mt ofSignedList?_eq_none_iff.1 h)

/-- Entries in another order are read as the same targets in another order. -/
theorem exists_perm_of_ofSignedList? (h : entries.Perm entries')
    (hbs : ofSignedList? entries = some bs) :
    ∃ bs', ofSignedList? entries' = some bs' ∧ bs.Perm bs' := by
  have hzero : 0 ∉ entries' := by
    rw [← h.mem_iff, ← ofSignedList?_eq_none_iff, hbs]
    simp
  obtain ⟨bs', hbs'⟩ := exists_ofSignedList? hzero
  refine ⟨bs', hbs', ?_⟩
  have hsigned : (bs.map (·.signed)).Perm (bs'.map (·.signed)) := by
    rw [← ofSignedList?_eq_some_iff.1 hbs, ← ofSignedList?_eq_some_iff.1 hbs']
    exact h.map _
  exact (List.map_perm_map_iff fun _ _ => signed_inj.1).1 hsigned

end BranchTarget

/-- The rules for branches do not mention their order. -/
theorem Draft.Sound.of_perm {d : Draft} {bs : List BranchTarget} (h : d.Sound)
    (hbs : d.branches.Perm bs) : ({ d with branches := bs } : Draft).Sound where
  operandCount_le := h.operandCount_le
  sizeOperand_lt := h.sizeOperand_lt
  memory_lt := h.memory_lt
  branch_lt t ht := h.branch_lt t (hbs.mem_iff.2 ht)
  nodup_branches := (hbs.map _).nodup_iff.1 h.nodup_branches

namespace Row

variable {r r' : Row} {i i' : Instruction} {entries : List Int32}

/-! ### What a row says -/

/-- Every part of the instruction is what the row says: operands are numbered from one, number zero
is none, and the entries of one sign are the targets of one kind. -/
structure Describes (r : Row) (i : Instruction) : Prop where
  name : i.name = r.name
  operands : i.operands = r.operands
  sizeOperand : i.sizeOperand = operandOfNumber? r.sizeOperand
  volatile : i.volatile = r.volatile
  operator : i.operator = r.operator
  virtual : BranchTarget.ofSignedList? (r.branches.filter (0 < ·)) =
    some (i.targets.virtual.map .virtual)
  native : BranchTarget.ofSignedList? (r.branches.filter (· < 0)) =
    some (i.targets.native.map .native)
  memory : i.memory = (operandOfNumber? r.memoryOperand).map fun k => ⟨k, r.memoryWrite⟩

theorem describes_of_build (h : r.build = .ok i) : r.Describes i := by
  obtain ⟨d, hd, hb⟩ := build_eq_ok_iff.1 h
  obtain ⟨bs, hbs, hd'⟩ := Option.bind_eq_some_iff.1 hd
  cases hd'
  obtain ⟨-, rfl⟩ := Draft.build_eq_ok_iff.1 hb
  exact {
    name := rfl
    operands := rfl
    sizeOperand := rfl
    volatile := rfl
    operator := rfl
    virtual := BranchTarget.ofSignedList?_filter_pos hbs
    native := BranchTarget.ofSignedList?_filter_neg hbs
    memory := rfl }

theorem operandOfNumber?_inj {m n : ℕ} : operandOfNumber? m = operandOfNumber? n ↔ m = n := by
  cases m <;> cases n <;> simp [operandOfNumber?]

theorem memory_eq_memory_iff {m n : ℕ} {v w : Bool} :
    (operandOfNumber? m).map (MemoryAccess.mk · v) = (operandOfNumber? n).map (⟨·, w⟩) ↔
      m = n ∧ (m ≠ 0 → v = w) := by
  cases m <;> cases n <;> simp [operandOfNumber?]

theorem Describes.eq_iff (h : r.Describes i) (h' : r'.Describes i') :
    i = i' ↔ r.name = r'.name ∧ r.operands = r'.operands ∧ r.sizeOperand = r'.sizeOperand ∧
      r.volatile = r'.volatile ∧ r.operator = r'.operator ∧
      r.branches.filter (0 < ·) = r'.branches.filter (0 < ·) ∧
      r.branches.filter (· < 0) = r'.branches.filter (· < 0) ∧
      r.memoryOperand = r'.memoryOperand ∧
      (r.memoryOperand ≠ 0 → r.memoryWrite = r'.memoryWrite) := by
  have hparts : i = i' ↔ i.name = i'.name ∧ i.operands = i'.operands ∧
      i.sizeOperand = i'.sizeOperand ∧ i.volatile = i'.volatile ∧ i.operator = i'.operator ∧
      i.targets.virtual = i'.targets.virtual ∧ i.targets.native = i'.targets.native ∧
      i.memory = i'.memory := by
    obtain ⟨_, _, _, _, _, ⟨_, _⟩, _⟩ := i
    obtain ⟨_, _, _, _, _, ⟨_, _⟩, _⟩ := i'
    simp [and_assoc]
  have hvirtual : i.targets.virtual = i'.targets.virtual ↔
      r.branches.filter (0 < ·) = r'.branches.filter (0 < ·) := by
    rw [BranchTarget.ofSignedList?_inj h.virtual h'.virtual]
    exact (List.map_injective_iff.2 fun _ _ => BranchTarget.virtual.inj).eq_iff.symm
  have hnative : i.targets.native = i'.targets.native ↔
      r.branches.filter (· < 0) = r'.branches.filter (· < 0) := by
    rw [BranchTarget.ofSignedList?_inj h.native h'.native]
    exact (List.map_injective_iff.2 fun _ _ => BranchTarget.native.inj).eq_iff.symm
  rw [hparts, h.name, h'.name, h.operands, h'.operands, h.sizeOperand, h'.sizeOperand,
    operandOfNumber?_inj, h.volatile, h'.volatile, h.operator, h'.operator, hvirtual, hnative,
    h.memory, h'.memory, memory_eq_memory_iff]

/-! ### Rows with their branches in another order -/

/-- A row builds in whatever order its branches are given, and every operand answers alike. -/
theorem exists_build_of_perm (h : r.branches.Perm entries) (hi : r.build = .ok i) :
    ∃ i', ({ r with branches := entries } : Row).build = .ok i' ∧
      ∀ k, i'.branchTarget? k = i.branchTarget? k := by
  -- the two instructions record the same branches, so no operand can tell them apart
  obtain ⟨d, hd, hb⟩ := build_eq_ok_iff.1 hi
  obtain ⟨bs, hbs, hd'⟩ := Option.bind_eq_some_iff.1 hd
  obtain ⟨bs', hbs', hperm⟩ := BranchTarget.exists_perm_of_ofSignedList? h hbs
  cases hd'
  have hsound := (Draft.build_eq_ok_iff.1 hb).1
  obtain ⟨i', hi'⟩ := Draft.exists_build_eq_ok_iff.2 (hsound.of_perm hperm)
  refine ⟨i', build_eq_ok_iff.2 ⟨_, by simp [draft?, hbs'], hi'⟩, fun k => ?_⟩
  ext t
  rw [(Instruction.records_of_build hb).branchTarget?_eq_some_iff,
    (Instruction.records_of_build hi').branchTarget?_eq_some_iff, hperm.mem_iff]

theorem exists_build_iff_of_perm (h : r.branches.Perm entries) :
    (∃ i, ({ r with branches := entries } : Row).build = .ok i) ↔ ∃ i, r.build = .ok i := by
  constructor
  · rintro ⟨i, hi⟩
    obtain ⟨i', hi', -⟩ := exists_build_of_perm h.symm hi
    exact ⟨i', hi'⟩
  · rintro ⟨i, hi⟩
    obtain ⟨i', hi', -⟩ := exists_build_of_perm h hi
    exact ⟨i', hi'⟩

/-- **What an instruction forgets of its row.** Two rows that build describe one instruction exactly
when they agree in everything but the order of branches of different kinds and the write flag of a
memory access that is absent. A row with its branches in any other order builds exactly when the row
does, and then every operand holds the same target. -/
theorem build_forgets_interleaving :
    (∀ (r r' : Row) (i i' : Instruction), r.build = .ok i → r'.build = .ok i' →
      (i = i' ↔
        r.name = r'.name ∧ r.operands = r'.operands ∧ r.sizeOperand = r'.sizeOperand ∧
        r.volatile = r'.volatile ∧ r.operator = r'.operator ∧
        r.branches.filter (0 < ·) = r'.branches.filter (0 < ·) ∧
        r.branches.filter (· < 0) = r'.branches.filter (· < 0) ∧
        r.memoryOperand = r'.memoryOperand ∧
        (r.memoryOperand ≠ 0 → r.memoryWrite = r'.memoryWrite))) ∧
    ∀ (r : Row) (entries : List Int32), r.branches.Perm entries →
      ((∃ i, ({ r with branches := entries } : Row).build = .ok i) ↔ ∃ i, r.build = .ok i) ∧
      ∀ i i', r.build = .ok i → ({ r with branches := entries } : Row).build = .ok i' →
        ∀ k, i'.branchTarget? k = i.branchTarget? k := by
  constructor
  · intro r r' i i' hi hi'
    exact (describes_of_build hi).eq_iff (describes_of_build hi')
  · intro r entries h
    refine ⟨exists_build_iff_of_perm h, fun i i' hi hi' => ?_⟩
    obtain ⟨found, hfound, hanswers⟩ := exists_build_of_perm h hi
    have heq : i' = found := Except.ok.inj (hi'.symm.trans hfound)
    rw [heq]
    exact hanswers

/-- Four branches in three orders, the first two of which differ only in how the kinds take turns
and in a write flag that means nothing. -/
theorem build_of_switch_orders :
    ∃ (r r' : Row) (i i' i'' : Instruction),
      r = ⟨"switch", .replicate 4 .readAny, 0, false, none, [-3, 2, -1, 4], 0, false⟩ ∧
      r' = ⟨"switch", .replicate 4 .readAny, 0, false, none, [2, 4, -3, -1], 0, true⟩ ∧
      r.build = .ok i ∧ r'.build = .ok i' ∧
      ({ r with branches := [4, 2, -1, -3] } : Row).build = .ok i'' ∧
      i = i' ∧ i ≠ i'' ∧ ∀ k, i''.branchTarget? k = i.branchTarget? k := by
  obtain ⟨hequal, horder⟩ := build_forgets_interleaving
  have hi : (⟨"switch", .replicate 4 .readAny, 0, false, none, [-3, 2, -1, 4], 0, false⟩ :
    Row).build =
    .ok ⟨"switch", .replicate 4 .readAny, none, false, none, ⟨[1, 3], [2, 0]⟩, none⟩ := rfl
  have hi' : (⟨"switch", .replicate 4 .readAny, 0, false, none, [2, 4, -3, -1], 0, true⟩ :
    Row).build =
    .ok ⟨"switch", .replicate 4 .readAny, none, false, none, ⟨[1, 3], [2, 0]⟩, none⟩ := rfl
  have hi'' : (⟨"switch", .replicate 4 .readAny, 0, false, none, [4, 2, -1, -3], 0, false⟩ :
    Row).build =
    .ok ⟨"switch", .replicate 4 .readAny, none, false, none, ⟨[3, 1], [0, 2]⟩, none⟩ := rfl
  refine ⟨_, _, _, _, _, rfl, rfl, hi, hi', hi'', (hequal _ _ _ _ hi hi').2 (by decide),
    fun he => absurd ((hequal _ _ _ _ hi hi'').1 he) (by decide),
    (horder _ _ (by decide)).2 _ _ hi hi''⟩

end Row

end VirtualIsa
