import VirtualIsa.BitRange
import VirtualIsa.Flags

/-!
# Registers

A register is a range of bits of a 64-bit slot. A slot is named by an id and a set of
flags: an id alone does not name one, so that every id is free in every class of
registers.

* `Slot` and `Register`, plain data about which nothing is assumed (`Register.Valid`,
  in another module, says which of them are real);
* the properties that a register has from its flags;
* `Register.overlaps`: two registers of one slot share a bit. Main statement:
  `Register.overlaps_iff`, which finds the shared bit;
* the order of registers, by id, flags, width and offset, and `Register.sort`.
-/

namespace VirtualIsa

/-- The name of a 64-bit slot. -/
@[ext] structure Slot where
  id : UInt64
  flags : Flags
  deriving DecidableEq

/-- A range of bits of a slot. -/
@[ext] structure Register where
  slot : Slot
  range : BitRange
  deriving DecidableEq

namespace Slot

instance : Ord Slot := ⟨compareLex (compareOn id) (compareOn flags)⟩

instance : Std.TransOrd Slot :=
  inferInstanceAs (Std.TransCmp (compareLex (compareOn id) (compareOn flags)))

theorem compare_eq_iff {s t : Slot} : compare s t = .eq ↔ s = t := by
  change (compare s.id t.id).then (compare s.flags t.flags) = .eq ↔ _
  simp [Ordering.then_eq_eq, Slot.ext_iff]

instance : Std.LawfulEqOrd Slot := ⟨compare_eq_iff.1⟩

end Slot

namespace Register

/-! ### Properties from the flags -/

section Properties

variable (r : Register)

/-- The register belongs to the machine itself. -/
def isPhysical : Bool := .physical ∈ r.slot.flags

/-- The register is not physical. -/
def isVirtual : Bool := !r.isPhysical

/-- The register is a temporary of one basic block. -/
def isBlockLocal : Bool := .blockLocal ∈ r.slot.flags

/-- The register outlives its basic block. -/
def isGlobal : Bool := !r.isBlockLocal

/-- The register is the status flags register. -/
def isStatusFlags : Bool := .statusFlags ∈ r.slot.flags

/-- The register is the stack pointer. -/
def isStackPointer : Bool := .stackPointer ∈ r.slot.flags

/-- The register may change by itself, like a timestamp counter. -/
def isVolatile : Bool := .volatile ∈ r.slot.flags

/-- The register cannot be written. -/
def isReadOnly : Bool := .readOnly ∈ r.slot.flags

end Properties

/-! ### Bits and overlap -/

/-- The bits of the slot that the register covers. -/
def mask (r : Register) : UInt64 := r.range.mask

/-- Two registers of one slot share a bit. -/
def overlaps (a b : Register) : Bool := a.slot = b.slot && a.mask &&& b.mask != 0

theorem testBit_mask (r : Register) (p : Nat) :
    r.mask.toNat.testBit p = decide (p ∈ r.range ∧ p < 64) :=
  r.range.testBit_mask p

/-- Registers overlap when they have one slot and a common bit position in it. -/
theorem overlaps_iff {a b : Register} :
    a.overlaps b ↔ a.slot = b.slot ∧ ∃ p < 64, p ∈ a.range ∧ p ∈ b.range := by
  rw [← BitRange.mask_and_mask_ne_zero_iff]
  simp [overlaps, mask]

/-! ### Order -/

instance : Ord Register := ⟨compareLex (compareOn slot) (compareOn range)⟩

instance : Std.TransOrd Register :=
  inferInstanceAs (Std.TransCmp (compareLex (compareOn slot) (compareOn range)))

theorem compare_eq_iff {a b : Register} : compare a b = .eq ↔ a = b := by
  change (compare a.slot b.slot).then (compare a.range b.range) = .eq ↔ _
  simp [Ordering.then_eq_eq, Register.ext_iff]

instance : Std.LawfulEqOrd Register := ⟨compare_eq_iff.1⟩

/-- Registers in increasing order. -/
def sort (rs : List Register) : List Register := rs.mergeSort fun a b => (compare a b).isLE

theorem sort_perm (rs : List Register) : (sort rs).Perm rs := List.mergeSort_perm rs _

theorem pairwise_sort (rs : List Register) : (sort rs).Pairwise fun a b => (compare a b).isLE := by
  refine List.pairwise_mergeSort (fun _ _ _ => Std.TransCmp.isLE_trans) (fun a b => ?_) rs
  rw [Std.OrientedOrd.eq_swap (a := b) (b := a)]
  cases compare a b <;> rfl

/-! ### Dump -/

/-- The dump of a register: its slot, then its range. -/
def toJson (r : Register) : Json :=
  .obj [
    ("local_id", .num r.slot.id.toNat),
    ("flags", r.slot.flags.toJson),
    ("bit_count", .num r.range.width.toNat),
    ("bit_offset", .num r.range.offset.toNat)]

end Register

end VirtualIsa
