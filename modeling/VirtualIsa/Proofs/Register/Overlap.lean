import VirtualIsa.Proofs.Register.Making

/-!
# Overlap of registers and of their ranges

Overlap is decided on masks, words of 64 bits. For registers that a program can make this is
the intersection of ranges of positions, compared as natural numbers.

* `BitRange.exists_mem_iff_of_fits`: two ranges that fit a slot have a common position exactly
  when each starts before the other stops;
* `Register.Valid.overlaps_iff` and `Register.Valid.overlaps_self`. Main statement:
  `Register.overlaps_iff_ranges_intersect`.
-/

namespace VirtualIsa

namespace BitRange

variable {r s : BitRange}

theorem Fits.width_pos (h : r.Fits) : 0 < r.width.toNat :=
  Nat.pos_of_ne_zero fun h0 => h.1 (UInt8.toNat_inj.1 h0)

theorem Fits.offset_lt_stop (h : r.Fits) : r.offset.toNat < r.stop :=
  Nat.lt_add_of_pos_right h.width_pos

/-- The start of the later range is a common position, if there is one. -/
theorem exists_mem_iff_of_fits (hr : r.Fits) (hs : s.Fits) :
    (∃ p < 64, p ∈ r ∧ p ∈ s) ↔ r.offset.toNat < s.stop ∧ s.offset.toNat < r.stop := by
  constructor
  · rintro ⟨p, -, hpr, hps⟩
    exact ⟨Nat.lt_of_le_of_lt hpr.1 hps.2, Nat.lt_of_le_of_lt hps.1 hpr.2⟩
  · rintro ⟨hrs, hsr⟩
    have hr_start : r.offset.toNat < r.stop := hr.offset_lt_stop
    have hs_start : s.offset.toNat < s.stop := hs.offset_lt_stop
    have hr_stop : r.stop ≤ 64 := hr.2
    rcases Nat.le_total r.offset.toNat s.offset.toNat with hle | hle
    · exact ⟨s.offset.toNat, by omega, ⟨hle, hsr⟩, ⟨Nat.le_refl _, hs_start⟩⟩
    · exact ⟨r.offset.toNat, by omega, ⟨Nat.le_refl _, hr_start⟩, ⟨hle, hrs⟩⟩

end BitRange

theorem Slot.eq_iff {s t : Slot} : s = t ↔ s.id = t.id ∧ s.flags.bits = t.flags.bits := by
  rw [Slot.ext_iff, Flags.ext_iff]

namespace Register

variable {a b : Register}

/-- Registers overlap when they share a slot and a bit is set in both masks. -/
theorem overlaps_iff_common_bit :
    a.overlaps b ↔
      a.slot = b.slot ∧ ∃ p < 64, a.mask.toNat.testBit p ∧ b.mask.toNat.testBit p := by
  rw [overlaps_iff]
  refine and_congr_right fun _ => exists_congr fun p => and_congr_right fun hp => ?_
  simp [testBit_mask, hp]

theorem overlaps_comm (a b : Register) : a.overlaps b = b.overlaps a := by
  rw [Bool.eq_iff_iff, overlaps_iff, overlaps_iff, eq_comm]
  refine and_congr_right fun _ => exists_congr fun p => and_congr_right fun _ => and_comm

/-- Valid registers overlap when they share a slot and each range starts before the other
stops. -/
theorem Valid.overlaps_iff (ha : a.Valid) (hb : b.Valid) :
    a.overlaps b ↔
      a.slot = b.slot ∧ a.range.offset.toNat < b.range.stop ∧
        b.range.offset.toNat < a.range.stop := by
  rw [Register.overlaps_iff, BitRange.exists_mem_iff_of_fits ha.fits hb.fits]

theorem Valid.overlaps_self (ha : a.Valid) : a.overlaps a := by
  have hstart : a.range.offset.toNat < a.range.stop := ha.fits.offset_lt_stop
  exact (ha.overlaps_iff ha).2 ⟨rfl, hstart, hstart⟩

/-- **Overlap is intersection of ranges in one slot**, and so it is a common bit of the masks, it
is symmetric, and every register that can be made overlaps itself. -/
theorem overlaps_iff_ranges_intersect {a b : Register} (ha : a.Made) (hb : b.Made) :
    (a.overlaps b ↔ a.slot.id = b.slot.id ∧ a.slot.flags.bits = b.slot.flags.bits ∧
      a.range.offset.toNat < b.range.offset.toNat + b.range.width.toNat ∧
      b.range.offset.toNat < a.range.offset.toNat + a.range.width.toNat) ∧
    (a.overlaps b ↔
      a.slot = b.slot ∧ ∃ p < 64, a.mask.toNat.testBit p ∧ b.mask.toNat.testBit p) ∧
    a.overlaps b = b.overlaps a ∧ a.overlaps a := by
  refine ⟨?_, overlaps_iff_common_bit, overlaps_comm a b, ha.valid.overlaps_self⟩
  rw [ha.valid.overlaps_iff hb.valid, Slot.eq_iff, and_assoc]
  rfl

/-- The last bit of a slot lies in the whole slot, and only touches the range below it. -/
theorem overlaps_at_last_bit :
    (⟨⟨7, ⟨0xc1⟩⟩, ⟨64, 0⟩⟩ : Register).Made ∧ (⟨⟨7, ⟨0xc1⟩⟩, ⟨1, 63⟩⟩ : Register).Made ∧
      (⟨⟨7, ⟨0xc1⟩⟩, ⟨63, 0⟩⟩ : Register).Made ∧
      (⟨⟨7, ⟨0xc1⟩⟩, ⟨64, 0⟩⟩ : Register).overlaps ⟨⟨7, ⟨0xc1⟩⟩, ⟨1, 63⟩⟩ ∧
      ¬ (⟨⟨7, ⟨0xc1⟩⟩, ⟨63, 0⟩⟩ : Register).overlaps ⟨⟨7, ⟨0xc1⟩⟩, ⟨1, 63⟩⟩ := by
  have hwhole : (⟨⟨7, ⟨0xc1⟩⟩, ⟨64, 0⟩⟩ : Register).Made := made_iff_valid.2 (by decide)
  have hlast : (⟨⟨7, ⟨0xc1⟩⟩, ⟨1, 63⟩⟩ : Register).Made := made_iff_valid.2 (by decide)
  have hrest : (⟨⟨7, ⟨0xc1⟩⟩, ⟨63, 0⟩⟩ : Register).Made := made_iff_valid.2 (by decide)
  refine ⟨hwhole, hlast, hrest, ?_, ?_⟩
  · exact (overlaps_iff_ranges_intersect hwhole hlast).1.2 (by decide)
  · intro h
    exact absurd ((overlaps_iff_ranges_intersect hrest hlast).1.1 h) (by decide)

end Register

end VirtualIsa
