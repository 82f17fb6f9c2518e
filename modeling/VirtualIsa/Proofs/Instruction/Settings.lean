import Mathlib.Data.List.DropRight
import VirtualIsa.Instruction.Row

/-!
# What a run of edits settles

Edits can come in any order, and many replace what earlier ones have set. What a run of edits leaves
behind is read off the run as a whole, one setting at a time.

* `Draft.Edit.finalOperands` and `Draft.settled`: the last list of operands with those that were
  added to it since, the last size, operator and memory access, and every branch. Main statement:
  `Draft.reviseAll_blank`, a draft after a run of edits has the settings that the run settles;
* `Row.DescribedBy r es`: the edits settle what the row says in the notation of tables. Main
  statement: `Row.build_eq_build_of_describedBy`, a row builds as every draft with its settings
  does, and every row can be drafted, unless it has the branch zero.
-/

namespace VirtualIsa

namespace Draft

namespace Edit

/-! ### What one edit sets -/

/-- The list with which an edit replaces the operands. -/
def replacement? : Edit → Option (List Access)
  | operands all => some all
  | _ => none

/-- The operand that an edit adds. -/
def addition? : Edit → Option Access
  | operand one => some one
  | _ => none

/-- The operand of the size that an edit sets. -/
def sizeOperand? : Edit → Option ℕ
  | sizeOperand index => some index
  | _ => none

/-- The operator that an edit sets. -/
def operator? : Edit → Option Operator
  | operator op => some op
  | _ => none

/-- The memory access that an edit sets. -/
def memory? : Edit → Option MemoryAccess
  | memory index write => some ⟨index, write⟩
  | _ => none

/-- The branch that an edit adds. -/
def branch? : Edit → Option BranchTarget
  | branch target => some target
  | continuesVirtual index => some (.virtual index)
  | exitsToNative index => some (.native index)
  | _ => none

/-! ### What a run of edits settles -/

section Runs

variable {α : Type*} {setting? : Edit → Option α}

/-- The last value that the edits give to a setting. -/
def last? (setting? : Edit → Option α) (es : List Edit) : Option α :=
  (es.filterMap setting?).getLast?

/-- The last list that replaces the operands, if there is one, and then the operands that are added
after it. -/
def finalOperands (es : List Edit) : List Access :=
  (last? replacement? es).getD [] ++
    (es.rtakeWhile (·.replacement?.isNone)).filterMap addition?

/-- The last edit that gives a value to the setting counts. -/
theorem last?_append_singleton (es : List Edit) (e : Edit) :
    last? setting? (es ++ [e]) = (setting? e <|> last? setting? es) := by
  cases h : setting? e <;> simp [last?, h]

theorem finalOperands_of_replacement {e : Edit} {all : List Access} (es : List Edit)
    (h : e.replacement? = some all) : finalOperands (es ++ [e]) = all := by
  simp [finalOperands, last?_append_singleton, h]

theorem finalOperands_of_addition {e : Edit} (es : List Edit) (h : e.replacement? = none) :
    finalOperands (es ++ [e]) = finalOperands es ++ e.addition?.toList := by
  cases hadd : e.addition? <;> simp [finalOperands, last?_append_singleton, h, hadd]

end Runs

end Edit

/-- The draft with the settings that a run of edits settles. -/
def settled (name : String) (es : List Edit) : Draft where
  name := name
  operands := Edit.finalOperands es
  sizeOperand := Edit.last? Edit.sizeOperand? es
  volatile := .volatile ∈ es
  operator := Edit.last? Edit.operator? es
  branches := es.filterMap Edit.branch?
  memory := Edit.last? Edit.memory? es

/-- One more edit settles what it sets, and leaves the rest as it is. -/
theorem settled_append_singleton (name : String) (es : List Edit) (e : Edit) :
    settled name (es ++ [e]) = (settled name es).revise e := by
  have hops : Edit.finalOperands (es ++ [e]) = ((settled name es).revise e).operands := by
    cases e with
    | operands all => exact Edit.finalOperands_of_replacement es rfl
    | operand one => exact Edit.finalOperands_of_addition es rfl
    | _ => exact (Edit.finalOperands_of_addition es rfl).trans (List.append_nil _)
  unfold settled at hops ⊢
  rw [hops]
  simp only [Edit.last?_append_singleton, List.filterMap_append, List.mem_append]
  cases e <;> simp [revise, addBranch, Edit.sizeOperand?, Edit.operator?, Edit.memory?,
    Edit.branch?]

/-- A draft has the settings that the edits settled. -/
theorem reviseAll_blank (name : String) (es : List Edit) :
    (blank name).reviseAll es = settled name es := by
  induction es using List.reverseRecOn with
  | nil => rfl
  | append_singleton es e ih =>
    rw [reviseAll_append, ih, settled_append_singleton]
    rfl

theorem reviseAll_map_branch (d : Draft) (bs : List BranchTarget) :
    d.reviseAll (bs.map .branch) = { d with branches := d.branches ++ bs } := by
  induction bs generalizing d with
  | nil => simp
  | cons t bs ih =>
    rw [List.map_cons, reviseAll_cons, ih]
    simp [revise, addBranch]

/-- Every draft can be made by edits. -/
theorem exists_reviseAll_blank (d : Draft) : ∃ es, (blank d.name).reviseAll es = d := by
  obtain ⟨name, ops, size, volatile, op, bs, mem⟩ := d
  refine ⟨.operands ops :: (size.toList.map .sizeOperand ++ (if volatile then [.volatile] else []) ++
    op.toList.map .operator ++ mem.toList.map (fun m => .memory m.operand m.write) ++
    bs.map .branch), ?_⟩
  rw [reviseAll_cons, reviseAll_append, reviseAll_map_branch]
  cases size <;> cases volatile <;> cases op <;> cases mem <;> rfl

end Draft

namespace Row

variable {r : Row} {es : List Draft.Edit}

/-- The edits settle what the row says: operands are numbered from one there, number zero is none,
and branches are signed. The write flag belongs to the memory access, if there is one. -/
structure DescribedBy (r : Row) (es : List Draft.Edit) : Prop where
  operands : Draft.Edit.finalOperands es = r.operands
  sizeOperand : ∀ k, Draft.Edit.last? Draft.Edit.sizeOperand? es = some k ↔ r.sizeOperand = k + 1
  volatile : .volatile ∈ es ↔ r.volatile = true
  operator : Draft.Edit.last? Draft.Edit.operator? es = r.operator
  branches : (es.filterMap Draft.Edit.branch?).map (·.signed) = r.branches.map (·.toInt)
  memory : ∀ m, Draft.Edit.last? Draft.Edit.memory? es = some m ↔
    r.memoryOperand = m.operand + 1 ∧ r.memoryWrite = m.write

theorem operandOfNumber?_eq_some_iff {n k : ℕ} : operandOfNumber? n = some k ↔ n = k + 1 := by
  cases n <;> simp [operandOfNumber?]

theorem sizeOperand_eq_iff {o : Option ℕ} :
    operandOfNumber? r.sizeOperand = o ↔ ∀ k, o = some k ↔ r.sizeOperand = k + 1 := by
  rw [eq_comm, Option.ext_iff]
  refine forall_congr' fun k => ?_
  rw [operandOfNumber?_eq_some_iff]

theorem memory_eq_iff {o : Option MemoryAccess} :
    (operandOfNumber? r.memoryOperand).map (fun k => ⟨k, r.memoryWrite⟩) = o ↔
      ∀ m, o = some m ↔ r.memoryOperand = m.operand + 1 ∧ r.memoryWrite = m.write := by
  rw [eq_comm, Option.ext_iff]
  refine forall_congr' fun m => iff_congr Iff.rfl ?_
  rw [Option.map_eq_some_iff]
  constructor
  · rintro ⟨k, hk, rfl⟩
    exact ⟨operandOfNumber?_eq_some_iff.1 hk, rfl⟩
  · rintro ⟨hk, hw⟩
    exact ⟨m.operand, operandOfNumber?_eq_some_iff.2 hk, by rw [hw]⟩

/-- The edits describe a row when the row stands for the draft that they make. -/
theorem describedBy_iff : r.DescribedBy es ↔
    r.draft? = some ((Draft.blank r.name).reviseAll es) := by
  rw [Draft.reviseAll_blank]
  constructor
  · intro h
    have hvolatile : r.volatile = decide (.volatile ∈ es) := by
      rw [Bool.eq_iff_iff, ← h.volatile, decide_eq_true_iff]
    rw [draft?, BranchTarget.ofSignedList?_eq_some_iff.2 h.branches.symm,
      sizeOperand_eq_iff.2 h.sizeOperand, memory_eq_iff.2 h.memory]
    simp [Draft.settled, h.operands, h.operator, hvolatile]
  · intro h
    obtain ⟨bs, hbs, hd⟩ := Option.bind_eq_some_iff.1 h
    obtain ⟨-, hops, hsize, hvolatile, hop, rfl, hmemory⟩ := Draft.mk.inj (Option.some.inj hd)
    exact {
      operands := hops.symm
      sizeOperand := sizeOperand_eq_iff.1 hsize
      volatile := by rw [hvolatile, decide_eq_true_iff]
      operator := hop.symm
      branches := (BranchTarget.ofSignedList?_eq_some_iff.1 hbs).symm
      memory := memory_eq_iff.1 hmemory }

theorem name_draft? {d : Draft} (h : r.draft? = some d) : d.name = r.name := by
  obtain ⟨bs, -, hd⟩ := Option.bind_eq_some_iff.1 h
  cases hd
  rfl

theorem exists_describedBy (h : 0 ∉ r.branches) : ∃ es, r.DescribedBy es := by
  obtain ⟨d, hd⟩ := Option.ne_none_iff_exists'.1 (mt draft?_eq_none_iff.1 h)
  obtain ⟨es, hes⟩ := d.exists_reviseAll_blank
  rw [name_draft? hd] at hes
  exact ⟨es, describedBy_iff.2 (hes ▸ hd)⟩

/-- **The notation of tables agrees with drafts.** The branch zero is reported whatever else is
wrong with a row. Any other row is described by some edits, and whatever edits describe it, in
whatever order, it builds as their draft does, to the same instruction or the same defect. -/
theorem build_eq_build_of_describedBy (r : Row) :
    (0 ∈ r.branches → r.build = .error ⟨r.name, .zeroBranchTarget⟩) ∧
    (0 ∉ r.branches → ∃ es, r.DescribedBy es) ∧
    ∀ es, r.DescribedBy es → r.build = ((Draft.blank r.name).reviseAll es).build := by
  refine ⟨fun h => ?_, exists_describedBy, fun es h => ?_⟩
  · rw [build, draft?_eq_none_iff.2 h]
  · rw [build, describedBy_iff.1 h]

/-- Edits that change their mind still describe a conditional exit that reads memory, and the branch
zero is reported before five operands and a branch through the ninth. -/
theorem exit_build_and_zero_branch :
    (∃ (r : Row) (es : List Draft.Edit),
      r = ⟨"jexit", [.readReg, .readAny, .readAny], 2, true, none, [2, -3], 1, false⟩ ∧
      es = [.operand .write, .continuesVirtual 1, .sizeOperand 9, .memory 7 true, .volatile,
        .operands [.readReg, .readAny], .branch (.native 2), .memory 0 false, .operand .readAny,
        .sizeOperand 1] ∧
      r.DescribedBy es ∧ r.build = ((Draft.blank "jexit").reviseAll es).build) ∧
    ∃ r : Row, r = ⟨"wide", .replicate 5 .readAny, 7, false, none, [9, 0, -1], 6, true⟩ ∧
      0 ∈ r.branches ∧ r.build = .error ⟨"wide", .zeroBranchTarget⟩ := by
  refine ⟨⟨_, _, rfl, rfl, ?_⟩, _, rfl, ?_⟩
  · exact ⟨describedBy_iff.2 rfl, (build_eq_build_of_describedBy _).2.2 _ (describedBy_iff.2 rfl)⟩
  · have h : (0 : Int32) ∈ [9, 0, -1] := by decide
    exact ⟨h, (build_eq_build_of_describedBy _).1 h⟩

end Row

end VirtualIsa
