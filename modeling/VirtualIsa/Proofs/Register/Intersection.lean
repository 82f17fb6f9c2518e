import Mathlib.Data.List.Pairwise
import VirtualIsa.Proofs.Register.Masks
import VirtualIsa.Proofs.Register.Requests

/-!
# What overlapping registers have in common

Ranges that meet two by two all meet, as positions lie on a line: none of them stops before another
one starts, so that the last start comes before the first stop, and between the two all of them lie.

* `Register.commonMask`, the bits that all of some registers cover, with
  `Register.testBit_commonMask_iff`;
* `Register.lastStart?` and `Register.firstStop?`, between which the common positions lie.
  `Register.forall_mem_range_iff`: these are the common positions, and
  `Register.lastStart_lt_firstStop`: there is one if the registers overlap two by two. Main
  statement: `Register.common_bits_are_one_view`.
-/

namespace VirtualIsa

namespace BitRange

variable {start stop p : ℕ}

/-- The range from one position to another one, which it does not contain. -/
def between (start stop : ℕ) : BitRange := ⟨UInt8.ofNat (stop - start), UInt8.ofNat start⟩

theorem toNat_offset_between (hlt : start < stop) (hle : stop ≤ 64) :
    (between start stop).offset.toNat = start :=
  UInt8.toNat_ofNat_of_lt' (Nat.lt_of_lt_of_le hlt (Nat.le_trans hle (by decide)))

theorem stop_between (hlt : start < stop) (hle : stop ≤ 64) : (between start stop).stop = stop := by
  have hbyte : stop - start < UInt8.size := by
    rw [show UInt8.size = 256 from rfl]
    omega
  have hwidth : (between start stop).width.toNat = stop - start := UInt8.toNat_ofNat_of_lt' hbyte
  rw [BitRange.stop, toNat_offset_between hlt hle, hwidth]
  omega

theorem mem_between_iff (hlt : start < stop) (hle : stop ≤ 64) :
    p ∈ between start stop ↔ start ≤ p ∧ p < stop := by
  rw [mem_def, toNat_offset_between hlt hle, stop_between hlt hle]

theorem fits_between (hlt : start < stop) (hle : stop ≤ 64) : (between start stop).Fits := by
  refine ⟨fun hwidth => ?_, (stop_between hlt hle).trans_le hle⟩
  have hempty := stop_between hlt hle
  rw [BitRange.stop, toNat_offset_between hlt hle, hwidth] at hempty
  exact absurd hempty (Nat.ne_of_lt hlt)

/-- A word whose set bits are the positions from one to another one is the mask of the range between
them. -/
theorem mask_between_eq {word : UInt64} (hlt : start < stop) (hle : stop ≤ 64)
    (h : ∀ p, word.toNat.testBit p ↔ p < 64 ∧ start ≤ p ∧ p < stop) :
    (between start stop).mask = word := by
  refine UInt64.toNat_inj.1 (Nat.eq_of_testBit_eq fun p => Bool.eq_iff_iff.2 ?_)
  rw [(fits_between hlt hle).testBit_mask_iff, mem_between_iff hlt hle, h p, iff_and_self]
  rintro ⟨-, hp⟩
  exact Nat.lt_of_lt_of_le hp hle

end BitRange

namespace Register

variable {rs : List Register} {start stop p : ℕ}

/-! ### The common bits -/

/-- The bits that all of the registers cover. -/
def commonMask (rs : List Register) : UInt64 :=
  (rs.map mask).foldr (· &&& ·) (-1)

@[simp] theorem commonMask_nil : commonMask [] = -1 := rfl

@[simp] theorem commonMask_cons (r : Register) (rs : List Register) :
    commonMask (r :: rs) = r.mask &&& commonMask rs := rfl

/-- A bit is common when its position is in every range. -/
theorem testBit_commonMask_iff :
    (commonMask rs).toNat.testBit p ↔ p < 64 ∧ ∀ r ∈ rs, p ∈ r.range := by
  induction rs with
  | nil =>
    rw [commonMask_nil, show (-1 : UInt64).toNat = 2 ^ 64 - 1 from rfl,
      Nat.testBit_two_pow_sub_one]
    simp
  | cons r rs ih =>
    rw [commonMask_cons, UInt64.toNat_and, Nat.testBit_and, Bool.and_eq_true, ih, testBit_mask,
      decide_eq_true_iff, List.forall_mem_cons]
    constructor
    · rintro ⟨⟨hr, hp⟩, -, hrs⟩
      exact ⟨hp, hr, hrs⟩
    · rintro ⟨hp, hr, hrs⟩
      exact ⟨⟨hr, hp⟩, hp, hrs⟩

/-! ### The common positions -/

/-- The largest offset, if there is a register. -/
def lastStart? (rs : List Register) : Option ℕ := (rs.map (·.range.offset.toNat)).max?

/-- The smallest end of a range, if there is a register. -/
def firstStop? (rs : List Register) : Option ℕ := (rs.map (·.range.stop)).min?

theorem lastStart?_eq_some_iff : lastStart? rs = some start ↔
    (∃ r ∈ rs, r.range.offset.toNat = start) ∧ ∀ r ∈ rs, r.range.offset.toNat ≤ start := by
  rw [lastStart?, List.max?_eq_some_iff, List.mem_map, List.forall_mem_map]

theorem firstStop?_eq_some_iff : firstStop? rs = some stop ↔
    (∃ r ∈ rs, r.range.stop = stop) ∧ ∀ r ∈ rs, stop ≤ r.range.stop := by
  rw [firstStop?, List.min?_eq_some_iff, List.mem_map, List.forall_mem_map]

theorem exists_lastStart_firstStop (h : rs ≠ []) :
    ∃ start stop, lastStart? rs = some start ∧ firstStop? rs = some stop := by
  have hmap {f : Register → ℕ} : rs.map f ≠ [] := mt List.map_eq_nil_iff.1 h
  obtain ⟨start, hstart⟩ := Option.isSome_iff_exists.1 (List.isSome_max?_of_ne_nil hmap)
  obtain ⟨stop, hstop⟩ := Option.isSome_iff_exists.1 (List.isSome_min?_of_ne_nil hmap)
  exact ⟨start, stop, hstart, hstop⟩

/-- The common positions lie between the last start and the first stop. -/
theorem forall_mem_range_iff (hstart : lastStart? rs = some start)
    (hstop : firstStop? rs = some stop) : (∀ r ∈ rs, p ∈ r.range) ↔ start ≤ p ∧ p < stop := by
  obtain ⟨⟨a, ha, hastart⟩, hlast⟩ := lastStart?_eq_some_iff.1 hstart
  obtain ⟨⟨b, hb, hbstop⟩, hfirst⟩ := firstStop?_eq_some_iff.1 hstop
  constructor
  · intro h
    exact ⟨hastart ▸ (h a ha).1, hbstop ▸ (h b hb).2⟩
  · rintro ⟨hle, hlt⟩ r hr
    exact ⟨Nat.le_trans (hlast r hr) hle, Nat.lt_of_lt_of_le hlt (hfirst r hr)⟩

/-- Of registers that overlap two by two every two overlap, be they the same one. -/
theorem forall_overlaps_of_pairwise (hvalid : ∀ r ∈ rs, r.Valid)
    (h : rs.Pairwise fun a b => a.overlaps b) : ∀ a ∈ rs, ∀ b ∈ rs, a.overlaps b := by
  have : Std.Symm fun a b : Register => a.overlaps b = true :=
    ⟨fun a b hab => (overlaps_comm b a).trans hab⟩
  intro a ha b hb
  exact h.forall_of_forall (fun r hr => (hvalid r hr).overlaps_self) ha hb

/-- The range that starts last starts before the one that stops first has stopped. -/
theorem lastStart_lt_firstStop (hvalid : ∀ r ∈ rs, r.Valid)
    (h : rs.Pairwise fun a b => a.overlaps b) (hstart : lastStart? rs = some start)
    (hstop : firstStop? rs = some stop) : start < stop := by
  obtain ⟨⟨a, ha, rfl⟩, -⟩ := lastStart?_eq_some_iff.1 hstart
  obtain ⟨⟨b, hb, rfl⟩, -⟩ := firstStop?_eq_some_iff.1 hstop
  have hab : a.overlaps b := forall_overlaps_of_pairwise hvalid h a ha b hb
  exact (((hvalid a ha).overlaps_iff (hvalid b hb)).1 hab).2.1

/-! ### The common view -/

/-- The common bits of registers are those of the range from the last start to the first stop. -/
theorem mask_between_eq_commonMask (hstart : lastStart? rs = some start)
    (hstop : firstStop? rs = some stop) (hlt : start < stop) (hle : stop ≤ 64) :
    (BitRange.between start stop).mask = commonMask rs := by
  refine BitRange.mask_between_eq hlt hle fun p => ?_
  rw [testBit_commonMask_iff, forall_mem_range_iff hstart hstop]

/-- One view has the common bits of registers that overlap two by two, and each of them gives it. -/
theorem exists_common_view (hne : rs ≠ []) (hvalid : ∀ r ∈ rs, r.Valid)
    (h : rs.Pairwise fun a b => a.overlaps b) :
    ∃ start stop v, lastStart? rs = some start ∧ firstStop? rs = some stop ∧ start < stop ∧
      v.Valid ∧ v.mask = commonMask rs ∧
      ∀ r ∈ rs, r.select (BitRange.between start stop) = .ok v := by
  obtain ⟨start, stop, hstart, hstop⟩ := exists_lastStart_firstStop hne
  obtain ⟨a, ha⟩ := List.exists_mem_of_ne_nil rs hne
  have hlt : start < stop := lastStart_lt_firstStop hvalid h hstart hstop
  have hle : stop ≤ 64 :=
    Nat.le_trans ((firstStop?_eq_some_iff.1 hstop).2 a ha) (hvalid a ha).fits.2
  have hfits := BitRange.fits_between hlt hle
  have hselect : a.select (.between start stop) = .ok ⟨a.slot, .between start stop⟩ :=
    (hvalid a ha).select_eq_ok_iff.2 ⟨hfits, rfl⟩
  refine ⟨start, stop, _, hstart, hstop, hlt, (create_eq_ok_iff.1 hselect).2,
    mask_between_eq_commonMask hstart hstop hlt hle, fun r hr => ?_⟩
  -- all members share the slot of one of them
  have hoverlaps : a.overlaps r := forall_overlaps_of_pairwise hvalid h a ha r hr
  have hslot : a.slot = r.slot := (overlaps_iff.1 hoverlaps).1
  exact (hvalid r hr).select_eq_ok_iff.2 ⟨hfits, by rw [hslot]⟩

/-- **Registers that overlap two by two have bits in common, and these are one register of their
slot.** Its range goes from the last offset to the first end, and every member can select it. So
what two overlapping registers have in common is always a register. -/
theorem common_bits_are_one_view :
    (∀ rs : List Register, rs ≠ [] → (∀ r ∈ rs, r.Valid) →
      (rs.Pairwise fun a b => a.overlaps b) →
      commonMask rs ≠ 0 ∧
      ∃ start stop v, lastStart? rs = some start ∧ firstStop? rs = some stop ∧ start < stop ∧
        v.Valid ∧ v.mask = commonMask rs ∧
        ∀ r ∈ rs, v.slot = r.slot ∧
          r.select ⟨UInt8.ofNat (stop - start), UInt8.ofNat start⟩ = .ok v) ∧
    ∀ a b : Register, a.Valid → b.Valid → a.overlaps b →
      ∃ c : Register, c.Valid ∧ c.slot = a.slot ∧ c.mask = a.mask &&& b.mask := by
  refine ⟨fun rs hne hvalid h => ?_, fun a b ha hb hab => ?_⟩
  · obtain ⟨start, stop, v, hstart, hstop, hlt, hv, hmask, hselect⟩ :=
      exists_common_view hne hvalid h
    refine ⟨hmask ▸ hv.fits.mask_ne_zero, start, stop, v, hstart, hstop, hlt, hv, hmask,
      fun r hr => ⟨?_, hselect r hr⟩⟩
    rw [((hvalid r hr).select_eq_ok_iff.1 (hselect r hr)).2]
  · have hvalid : ∀ r ∈ [a, b], r.Valid := by simp [ha, hb]
    have hpairwise : [a, b].Pairwise fun r s => r.overlaps s := List.pairwise_pair.2 hab
    obtain ⟨start, stop, v, -, -, -, hv, hmask, hselect⟩ :=
      exists_common_view (List.cons_ne_nil a [b]) hvalid hpairwise
    have hslot : v.slot = a.slot := by
      rw [(ha.select_eq_ok_iff.1 (hselect a List.mem_cons_self)).2]
    have hpair : commonMask [a, b] = a.mask &&& b.mask := by
      rw [commonMask_cons, commonMask_cons, commonMask_nil, UInt64.and_neg_one]
    exact ⟨v, hv, hslot, hmask.trans hpair⟩

/-- Three ranges of a slot, none of which lies in another one, have the third byte in common; and a
range has all of its bits in common with one in which it lies. -/
theorem common_views_in_slot :
    (∃ (rs : List Register) (v : Register),
      rs = [⟨⟨7, ⟨0xc1⟩⟩, ⟨24, 0⟩⟩, ⟨⟨7, ⟨0xc1⟩⟩, ⟨20, 8⟩⟩, ⟨⟨7, ⟨0xc1⟩⟩, ⟨48, 16⟩⟩] ∧ rs ≠ [] ∧
      (∀ r ∈ rs, r.Valid) ∧ (rs.Pairwise fun a b => a.overlaps b) ∧ commonMask rs = 0xff0000 ∧
      v.mask = 0xff0000 ∧ ∀ r ∈ rs, r.select ⟨8, 16⟩ = .ok v) ∧
    ∃ a b c : Register, a = ⟨⟨7, ⟨0xc1⟩⟩, ⟨32, 32⟩⟩ ∧ b = ⟨⟨7, ⟨0xc1⟩⟩, ⟨33, 31⟩⟩ ∧
      a.Valid ∧ b.Valid ∧ a.overlaps b ∧ c.Valid ∧ c.mask = a.mask &&& b.mask ∧ c.mask = a.mask := by
  have hvalid : ∀ r ∈ ([⟨⟨7, ⟨0xc1⟩⟩, ⟨24, 0⟩⟩, ⟨⟨7, ⟨0xc1⟩⟩, ⟨20, 8⟩⟩, ⟨⟨7, ⟨0xc1⟩⟩, ⟨48, 16⟩⟩] :
      List Register), r.Valid := by decide
  obtain ⟨hlist, hpair⟩ := common_bits_are_one_view
  obtain ⟨-, start, stop, v, hstart, hstop, -, -, hmask, hselect⟩ :=
    hlist _ (List.cons_ne_nil _ _) hvalid (by decide)
  cases hstart
  cases hstop
  obtain ⟨c, hc, -, hcmask⟩ :=
    hpair ⟨⟨7, ⟨0xc1⟩⟩, ⟨32, 32⟩⟩ ⟨⟨7, ⟨0xc1⟩⟩, ⟨33, 31⟩⟩ (by decide) (by decide) (by decide)
  refine ⟨⟨_, v, rfl, List.cons_ne_nil _ _, hvalid, by decide, by decide,
    hmask.trans (by decide), fun r hr => (hselect r hr).2⟩, _, _, c, rfl, rfl, by decide, by decide,
    by decide, hc, hcmask, hcmask.trans (by decide)⟩

end Register

end VirtualIsa
