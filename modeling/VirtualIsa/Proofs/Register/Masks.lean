import Mathlib.Data.Nat.BitIndices
import VirtualIsa.Proofs.Register.Overlap

/-!
# Masks as pictures of ranges

A mask is a word of 64 bits, so that it cannot show what lies past the slot, and an empty range
leaves no trace in it. Of a range that fits the slot it shows everything.

* `BitRange.Fits.testBit_mask_iff` and `BitRange.Fits.bitIndices_mask`: the set bits of the mask are
  the positions of the range, one after the other;
* `BitRange.Fits.mask_subset_iff` and `BitRange.Fits.mask_inj`: inclusion and equality of masks are
  those of ranges. Main statement: `Register.mask_pictures_range`.
-/

namespace VirtualIsa

namespace BitRange

variable {r s : BitRange} {p : ℕ}

/-- A range that fits the slot has all its positions in the mask. -/
theorem Fits.testBit_mask_iff (h : r.Fits) : r.mask.toNat.testBit p ↔ p ∈ r := by
  rw [testBit_mask, decide_eq_true_iff, and_iff_left_iff_imp]
  intro hp
  exact Nat.lt_of_lt_of_le hp.2 h.2

theorem Fits.mask_ne_zero (h : r.Fits) : r.mask ≠ 0 := by
  intro hzero
  have hbit : r.mask.toNat.testBit r.offset.toNat :=
    h.testBit_mask_iff.2 ⟨Nat.le_refl _, h.offset_lt_stop⟩
  simp [hzero] at hbit

/-- The set bits of the mask, from the lowest on, are as many as the range is wide and begin at its
offset, without a gap. -/
theorem Fits.bitIndices_mask (h : r.Fits) :
    r.mask.toNat.bitIndices = List.range' r.offset.toNat r.width.toNat := by
  refine Nat.bitIndices_sorted.eq_of_mem_iff
    (List.sortedLT_range' _ _ Nat.one_ne_zero) fun p => ?_
  rw [Nat.mem_bitIndices, h.testBit_mask_iff, List.mem_range'_1]
  rfl

/-- A range lies in another one when its first and its last position do. -/
theorem Fits.forall_mem_iff (h : r.Fits) :
    (∀ p ∈ r, p ∈ s) ↔ s.offset.toNat ≤ r.offset.toNat ∧ r.stop ≤ s.stop := by
  constructor
  · intro hsub
    have hpos : r.offset.toNat < r.stop := h.offset_lt_stop
    obtain ⟨hstart, -⟩ := hsub r.offset.toNat ⟨Nat.le_refl _, hpos⟩
    obtain ⟨-, hstop⟩ := hsub (r.stop - 1) ⟨by omega, by omega⟩
    exact ⟨hstart, by omega⟩
  · rintro ⟨hstart, hstop⟩ p hp
    exact ⟨Nat.le_trans hstart hp.1, Nat.lt_of_lt_of_le hp.2 hstop⟩

/-- Every bit of one mask is set in another one when the range lies in the other range. -/
theorem Fits.mask_subset_iff (hr : r.Fits) (hs : s.Fits) :
    (∀ p, r.mask.toNat.testBit p → s.mask.toNat.testBit p) ↔
      s.offset.toNat ≤ r.offset.toNat ∧ r.stop ≤ s.stop := by
  simp only [hr.testBit_mask_iff, hs.testBit_mask_iff]
  exact hr.forall_mem_iff

/-- The mask tells the range. -/
theorem Fits.mask_inj (hr : r.Fits) (hs : s.Fits) : r.mask = s.mask ↔ r = s := by
  refine ⟨fun h => ?_, congrArg _⟩
  obtain ⟨hstart, hstop⟩ := (hr.mask_subset_iff hs).1 fun p hp => h ▸ hp
  obtain ⟨hstart', hstop'⟩ := (hs.mask_subset_iff hr).1 fun p hp => h ▸ hp
  have hoffset : r.offset.toNat = s.offset.toNat := Nat.le_antisymm hstart' hstart
  have hwidth : r.width.toNat = s.width.toNat := by
    unfold stop at hstop hstop'
    omega
  exact BitRange.ext (UInt8.toNat_inj.1 hwidth) (UInt8.toNat_inj.1 hoffset)

/-- Past the slot a mask shows nothing, so that ranges with one mask may differ. -/
example : (⟨16, 56⟩ : BitRange).mask = (⟨8, 56⟩ : BitRange).mask ∧
    (⟨1, 64⟩ : BitRange).mask = (⟨0, 0⟩ : BitRange).mask := by decide

end BitRange

namespace Register

/-- **The mask of a valid register is a faithful picture of its range**: it has as many set bits as
the register is wide, from the offset on and without a gap, and it lies in the mask of another valid
register exactly when the range lies in the other range. So the mask tells the range, and slot and
mask tell the register. -/
theorem mask_pictures_range {a b : Register} (ha : a.Valid) (hb : b.Valid) :
    a.mask.toNat.bitIndices = List.range' a.range.offset.toNat a.range.width.toNat ∧
    a.mask.toNat.bitIndices.length = a.range.width.toNat ∧
    a.mask.toNat.bitIndices.head? = some a.range.offset.toNat ∧
    ((∀ p, a.mask.toNat.testBit p → b.mask.toNat.testBit p) ↔
      b.range.offset.toNat ≤ a.range.offset.toNat ∧
      a.range.offset.toNat + a.range.width.toNat ≤ b.range.offset.toNat + b.range.width.toNat) ∧
    (a.mask = b.mask ↔ a.range.width = b.range.width ∧ a.range.offset = b.range.offset) ∧
    (a = b ↔ a.slot.id = b.slot.id ∧ a.slot.flags.bits = b.slot.flags.bits ∧ a.mask = b.mask) := by
  have hbits : a.mask.toNat.bitIndices = List.range' a.range.offset.toNat a.range.width.toNat :=
    ha.fits.bitIndices_mask
  have hmask : a.mask = b.mask ↔ a.range = b.range := ha.fits.mask_inj hb.fits
  refine ⟨hbits, ?_, ?_, ha.fits.mask_subset_iff hb.fits, ?_, ?_⟩
  · rw [hbits, List.length_range']
  · have hwidth : a.range.width.toNat ≠ 0 := Nat.ne_of_gt ha.fits.width_pos
    rw [hbits, List.head?_range', if_neg hwidth]
  · rw [hmask, BitRange.ext_iff]
  · rw [hmask, Register.ext_iff, Slot.eq_iff, and_assoc]

/-- The last byte of a slot has its eight highest bits; the last bit lies in it, and the whole slot
does not. -/
theorem mask_of_last_byte :
    (⟨⟨7, ⟨0xc1⟩⟩, ⟨8, 56⟩⟩ : Register).Valid ∧
    (⟨⟨7, ⟨0xc1⟩⟩, ⟨8, 56⟩⟩ : Register).mask.toNat.bitIndices = [56, 57, 58, 59, 60, 61, 62, 63] ∧
    (∀ p, (⟨⟨7, ⟨0xc1⟩⟩, ⟨1, 63⟩⟩ : Register).mask.toNat.testBit p →
      (⟨⟨7, ⟨0xc1⟩⟩, ⟨8, 56⟩⟩ : Register).mask.toNat.testBit p) ∧
    (⟨⟨7, ⟨0xc1⟩⟩, ⟨64, 0⟩⟩ : Register).mask ≠ (⟨⟨7, ⟨0xc1⟩⟩, ⟨8, 56⟩⟩ : Register).mask := by
  have hbyte : (⟨⟨7, ⟨0xc1⟩⟩, ⟨8, 56⟩⟩ : Register).Valid := by decide
  obtain ⟨hbits, -⟩ := mask_pictures_range hbyte hbyte
  obtain ⟨-, -, -, hsubset, -⟩ :=
    mask_pictures_range (a := ⟨⟨7, ⟨0xc1⟩⟩, ⟨1, 63⟩⟩) (by decide) hbyte
  obtain ⟨-, -, -, -, hmask, -⟩ :=
    mask_pictures_range (a := ⟨⟨7, ⟨0xc1⟩⟩, ⟨64, 0⟩⟩) (by decide) hbyte
  exact ⟨hbyte, hbits, hsubset.2 (by decide), fun h => absurd (hmask.1 h) (by decide)⟩

end Register

end VirtualIsa
