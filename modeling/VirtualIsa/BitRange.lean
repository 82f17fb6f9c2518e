/-!
# Ranges of bits in a 64-bit slot

A range is a width and an offset, both bytes, with nothing assumed about them: a
range may be empty, reach past bit 63 or start there.

* `BitRange`, its end `stop` as a natural number (so that it never wraps) and the
  bit positions it contains, `p ∈ r`;
* `BitRange.mask`: the positions below 64 as a word. Main statement:
  `BitRange.testBit_mask`, a bit of the mask is set exactly at the positions of
  the range;
* the order by width and then offset.
-/

namespace VirtualIsa

/-- A run of `width` bits starting at bit `offset`. -/
@[ext] structure BitRange where
  width : UInt8
  offset : UInt8
  deriving DecidableEq, Hashable

namespace BitRange

/-- The whole slot. -/
def whole : BitRange := ⟨64, 0⟩

/-- The first position after the range. -/
def stop (r : BitRange) : Nat := r.offset.toNat + r.width.toNat

instance : Membership Nat BitRange :=
  ⟨fun r p => r.offset.toNat ≤ p ∧ p < r.stop⟩

theorem mem_def {r : BitRange} {p : Nat} : p ∈ r ↔ r.offset.toNat ≤ p ∧ p < r.stop := Iff.rfl

instance (p : Nat) (r : BitRange) : Decidable (p ∈ r) :=
  decidable_of_iff _ mem_def.symm

/-- The range names at least one bit and none past bit 63. -/
def Fits (r : BitRange) : Prop := r.width ≠ 0 ∧ r.stop ≤ 64

instance (r : BitRange) : Decidable r.Fits := inferInstanceAs (Decidable (_ ∧ _))

/-! ### The mask -/

/-- The lowest `width` bits of a word; 64 or more give all of them. -/
def lowBits (width : UInt8) : UInt64 :=
  if 64 ≤ width then 0xffffffffffffffff else (1 <<< width.toUInt64) - 1

/-- The word whose set bits are the positions of the range; those from 64 on are dropped. -/
def mask (r : BitRange) : UInt64 :=
  if 64 ≤ r.offset then 0 else lowBits r.width <<< r.offset.toUInt64

theorem testBit_lowBits (width : UInt8) (p : Nat) :
    (lowBits width).toNat.testBit p = decide (p < width.toNat ∧ p < 64) := by
  unfold lowBits
  split
  next h =>
    have h' : 64 ≤ width.toNat := by simpa [UInt8.le_iff_toNat_le] using h
    rw [show (0xffffffffffffffff : UInt64).toNat = 2 ^ 64 - 1 from rfl,
      Nat.testBit_two_pow_sub_one, decide_eq_decide]
    omega
  next h =>
    have h' : width.toNat < 64 := by simpa [UInt8.le_iff_toNat_le] using h
    have hp : 2 ^ width.toNat < 2 ^ 64 := Nat.pow_lt_pow_right (by decide) h'
    have hs : ((1 : UInt64) <<< width.toUInt64).toNat = 2 ^ width.toNat := by
      simp [UInt64.toNat_shiftLeft, Nat.mod_eq_of_lt h', Nat.one_shiftLeft]
      omega
    have hle : (1 : UInt64) ≤ 1 <<< width.toUInt64 := by
      rw [UInt64.le_iff_toNat_le, hs]
      exact Nat.one_le_two_pow
    rw [UInt64.toNat_sub_of_le _ _ hle, hs, show (1 : UInt64).toNat = 1 from rfl,
      Nat.testBit_two_pow_sub_one, decide_eq_decide]
    omega

/-- A bit of the mask is set exactly when its position is in the range. -/
theorem testBit_mask (r : BitRange) (p : Nat) :
    r.mask.toNat.testBit p = decide (p ∈ r ∧ p < 64) := by
  unfold mask
  split
  next h =>
    have h' : 64 ≤ r.offset.toNat := by simpa [UInt8.le_iff_toNat_le] using h
    simp [mem_def]
    omega
  next h =>
    have h' : r.offset.toNat < 64 := by simpa [UInt8.le_iff_toNat_le] using h
    rw [UInt64.toNat_shiftLeft, UInt8.toNat_toUInt64, Nat.mod_eq_of_lt h',
      Nat.testBit_mod_two_pow, Nat.testBit_shiftLeft, testBit_lowBits]
    rw [Bool.eq_iff_iff]
    simp [mem_def, stop]
    omega

/-- Masks have a common bit when the ranges have a common position in the slot. -/
theorem mask_and_mask_ne_zero_iff {r s : BitRange} :
    r.mask &&& s.mask ≠ 0 ↔ ∃ p < 64, p ∈ r ∧ p ∈ s := by
  have bit (p : Nat) : (r.mask &&& s.mask).toNat.testBit p = true ↔ p < 64 ∧ p ∈ r ∧ p ∈ s := by
    simp only [UInt64.toNat_and, Nat.testBit_and, testBit_mask, Bool.and_eq_true,
      decide_eq_true_eq]
    constructor
    · rintro ⟨⟨hr, hp⟩, hs, _⟩
      exact ⟨hp, hr, hs⟩
    · rintro ⟨hp, hr, hs⟩
      exact ⟨⟨hr, hp⟩, hs, hp⟩
  constructor
  · intro h
    obtain ⟨p, hp⟩ := Nat.exists_testBit_of_ne_zero fun h0 => h (UInt64.toNat_inj.1 h0)
    exact ⟨p, (bit p).1 hp⟩
  · rintro ⟨p, hp⟩ h
    simpa [h] using (bit p).2 hp

/-! ### Order -/

instance : Ord BitRange := ⟨compareLex (compareOn width) (compareOn offset)⟩

instance : Std.TransOrd BitRange :=
  inferInstanceAs (Std.TransCmp (compareLex (compareOn width) (compareOn offset)))

theorem compare_eq_iff {r s : BitRange} : compare r s = .eq ↔ r = s := by
  change (compare r.width s.width).then (compare r.offset s.offset) = .eq ↔ _
  simp [Ordering.then_eq_eq, BitRange.ext_iff]

instance : Std.LawfulEqOrd BitRange := ⟨compare_eq_iff.1⟩

end BitRange

end VirtualIsa
