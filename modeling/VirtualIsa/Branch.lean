import VirtualIsa.Json

/-!
# Branch targets

An instruction branches through its operands: each target says which operand holds it and
whether execution stays in the virtual machine or leaves it.

* `BranchTarget`, and `BranchTarget.ofSigned?` for the notation of tables, where `n` is
  the virtual target in the operand number `n` and `-n` the native one, counted from one.
  Main statement: `BranchTarget.ofSigned?_eq_some_iff`, the notation is read by undoing
  `BranchTarget.signed`;
* `Targets`, the targets of one instruction, kept apart by kind, the target that belongs to
  an operand, and `Targets.ofList`, which sorts branches by kind.
-/

namespace VirtualIsa

/-- Where control goes through an operand: on within the virtual machine, or out of it. -/
inductive BranchTarget where
  | virtual (operand : Nat)
  | native (operand : Nat)
  deriving DecidableEq

namespace BranchTarget

/-- The operand that holds the target, counted from zero. -/
def operand : BranchTarget → Nat
  | virtual i | native i => i

/-- The target in the notation of tables. -/
def signed : BranchTarget → Int
  | virtual i => i + 1
  | native i => -(i + 1)

/-- The target that a table entry stands for; zero stands for none. -/
def ofSigned? (entry : Int32) : Option BranchTarget :=
  match entry.toInt with
  | .ofNat 0 => none
  | .ofNat (i + 1) => some (.virtual i)
  | .negSucc i => some (.native i)

theorem ofSigned?_eq_some_iff {entry : Int32} {t : BranchTarget} :
    ofSigned? entry = some t ↔ entry.toInt = t.signed := by
  unfold ofSigned?
  cases t with
  | virtual k =>
    split
    next h =>
      simp only [h, signed, Int.ofNat_eq_natCast, reduceCtorEq, false_iff]
      omega
    next i h =>
      simp only [h, signed, Int.ofNat_eq_natCast, Option.some.injEq, virtual.injEq]
      omega
    next i h =>
      simp only [h, signed, Int.negSucc_eq, Option.some.injEq, reduceCtorEq, false_iff]
      omega
  | native k =>
    split
    next h =>
      simp only [h, signed, Int.ofNat_eq_natCast, reduceCtorEq, false_iff]
      omega
    next i h =>
      simp only [h, signed, Int.ofNat_eq_natCast, Option.some.injEq, reduceCtorEq, false_iff]
      omega
    next i h =>
      simp only [h, signed, Int.negSucc_eq, Option.some.injEq, native.injEq]
      omega

theorem ofSigned?_eq_none_iff {entry : Int32} : ofSigned? entry = none ↔ entry = 0 := by
  rw [← Int32.toInt_inj]
  unfold ofSigned?
  split
  next h => simp [h]
  next i h =>
    simp only [h, Int.ofNat_eq_natCast, Int32.toInt_zero, reduceCtorEq, false_iff]
    omega
  next i h => simp [h]

/-- The operand of a virtual target. -/
def virtual? : BranchTarget → Option Nat
  | virtual i => some i
  | native _ => none

/-- The operand of a native target. -/
def native? : BranchTarget → Option Nat
  | virtual _ => none
  | native i => some i

/-- The dump of a target. -/
def toJson : BranchTarget → Json
  | virtual i => .obj [("virtual", .num i)]
  | native i => .obj [("native", .num i)]

end BranchTarget

/-- The branch targets of an instruction: operands by kind, each list in table order. -/
structure Targets where
  virtual : List Nat
  native : List Nat
  deriving DecidableEq

namespace Targets

/-- No targets. -/
def empty : Targets := ⟨[], []⟩

/-- The operand holds a target. -/
def mentions (ts : Targets) (i : Nat) : Bool := ts.virtual.contains i || ts.native.contains i

/-- The targets with one more at the end. -/
def add (ts : Targets) : BranchTarget → Targets
  | .virtual i => { ts with virtual := ts.virtual ++ [i] }
  | .native i => { ts with native := ts.native ++ [i] }

/-- The target that an operand holds. -/
def find? (ts : Targets) (i : Nat) : Option BranchTarget :=
  if ts.virtual.contains i then some (.virtual i)
  else if ts.native.contains i then some (.native i)
  else none

theorem mentions_iff {ts : Targets} {i : Nat} :
    ts.mentions i ↔ i ∈ ts.virtual ∨ i ∈ ts.native := by
  simp [mentions]

theorem mentions_add {ts : Targets} {t : BranchTarget} {i : Nat} :
    (ts.add t).mentions i ↔ ts.mentions i ∨ i = t.operand := by
  cases t <;> simp [add, mentions_iff, BranchTarget.operand, or_assoc, or_comm, or_left_comm]

theorem isSome_find?_iff {ts : Targets} {i : Nat} : (ts.find? i).isSome ↔ ts.mentions i := by
  unfold find? mentions
  cases ts.virtual.contains i <;> cases ts.native.contains i <;> simp

theorem operand_of_find? {ts : Targets} {i : Nat} {t : BranchTarget} (h : ts.find? i = some t) :
    t.operand = i := by
  unfold find? at h
  split at h
  next => cases h; rfl
  next =>
    split at h
    next => cases h; rfl
    next => cases h

/-- The given branches by kind, unchecked. -/
def ofList (bs : List BranchTarget) : Targets :=
  ⟨bs.filterMap (·.virtual?), bs.filterMap (·.native?)⟩

theorem ofList_append_singleton (bs : List BranchTarget) (t : BranchTarget) :
    ofList (bs ++ [t]) = (ofList bs).add t := by
  cases t <;> simp [ofList, add, BranchTarget.virtual?, BranchTarget.native?]

theorem mentions_ofList {bs : List BranchTarget} {i : Nat} :
    (ofList bs).mentions i ↔ i ∈ bs.map (·.operand) := by
  rw [mentions_iff]
  simp only [ofList, List.mem_filterMap, List.mem_map]
  constructor
  · rintro (⟨t, ht, h⟩ | ⟨t, ht, h⟩)
    · exact ⟨t, ht, by cases t <;> simp_all [BranchTarget.virtual?, BranchTarget.operand]⟩
    · exact ⟨t, ht, by cases t <;> simp_all [BranchTarget.native?, BranchTarget.operand]⟩
  · rintro ⟨t, ht, rfl⟩
    cases t with
    | virtual i => exact .inl ⟨_, ht, rfl⟩
    | native i => exact .inr ⟨_, ht, rfl⟩

end Targets

end VirtualIsa
