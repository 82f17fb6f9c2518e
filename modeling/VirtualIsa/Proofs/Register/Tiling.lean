import Mathlib.Data.List.Forall2
import VirtualIsa.Proofs.Register.Intersection

/-!
# Ranges laid end to end

Ranges of any widths can be laid one behind the other, each from where the one before it stops. They
share no position and leave none out, so that their masks tile a run of bits, however far the ranges
reach past the slot. Offsets are bytes, so that only the last range may stop past all of them.

* `BitRange.mask?`, the mask computed with shifts that fail from 64 on. `BitRange.mask?_eq_some`: no
  shift fails;
* `BitRange.layOut`, the ranges of given widths, with `BitRange.exists_mem_layOut_iff`, the
  positions that they cover, and `BitRange.pairwise_layOut`, their order;
* `Register.Valid.exists_spanning_view`, views laid end to end make up one view. Main statement:
  `Register.consecutive_ranges_tile`.
-/

namespace VirtualIsa

/-- The bits that are set in some of the words. -/
def bitUnion (words : List UInt64) : UInt64 := words.foldr (· ||| ·) 0

@[simp] theorem bitUnion_nil : bitUnion [] = 0 := rfl

@[simp] theorem bitUnion_cons (word : UInt64) (words : List UInt64) :
    bitUnion (word :: words) = word ||| bitUnion words := rfl

theorem testBit_bitUnion_iff {words : List UInt64} {p : ℕ} :
    (bitUnion words).toNat.testBit p ↔ ∃ word ∈ words, word.toNat.testBit p := by
  induction words with
  | nil => simp
  | cons word words ih =>
    rw [bitUnion_cons, UInt64.toNat_or, Nat.testBit_or, Bool.or_eq_true, ih,
      List.exists_mem_cons_iff]

namespace BitRange

variable {r s : BitRange} {start p : ℕ} {width : UInt8} {widths : List UInt8}

/-! ### Shifts by less than a word -/

/-- A shift that fails if the amount reaches the length of a word. -/
def shiftLeft? (word : UInt64) (amount : UInt8) : Option UInt64 :=
  if amount < 64 then some (word <<< amount.toUInt64) else none

/-- The lowest `width` bits of a word, computed with a shift that may fail. -/
def lowBits? (width : UInt8) : Option UInt64 :=
  if 64 ≤ width then some 0xffffffffffffffff else (shiftLeft? 1 width).map (· - 1)

/-- The mask of the range, computed with shifts that may fail. -/
def mask? (r : BitRange) : Option UInt64 :=
  (lowBits? r.width).bind fun low => if 64 ≤ r.offset then some 0 else shiftLeft? low r.offset

theorem shiftLeft?_of_not_le {word : UInt64} {amount : UInt8} (h : ¬ 64 ≤ amount) :
    shiftLeft? word amount = some (word <<< amount.toUInt64) :=
  if_pos (UInt8.not_le.1 h)

theorem lowBits?_eq_some (width : UInt8) : lowBits? width = some (lowBits width) := by
  unfold lowBits? lowBits
  split
  next => rfl
  next h => rw [shiftLeft?_of_not_le h, Option.map_some]

/-- No shift is by 64 or more, whatever the range. -/
theorem mask?_eq_some (r : BitRange) : r.mask? = some r.mask := by
  unfold mask? mask
  rw [lowBits?_eq_some, Option.bind_some]
  split
  next => rfl
  next h => exact shiftLeft?_of_not_le h

/-! ### Layouts -/

/-- The sum of the widths, which need not be a byte. -/
def totalWidth (widths : List UInt8) : ℕ := (widths.map UInt8.toNat).sum

/-- Ranges of these widths, each from where the one before it stops. -/
def layOut (start : ℕ) : List UInt8 → List BitRange
  | [] => []
  | width :: widths => ⟨width, UInt8.ofNat start⟩ :: layOut (start + width.toNat) widths

/-- Every range of the layout starts at a byte, so that no offset wraps. -/
def StartsFit (start : ℕ) (widths : List UInt8) : Prop :=
  ∀ k < widths.length, start + totalWidth (widths.take k) < 256

instance (start : ℕ) (widths : List UInt8) : Decidable (StartsFit start widths) :=
  inferInstanceAs (Decidable (∀ k < widths.length, _))

@[simp] theorem totalWidth_nil : totalWidth [] = 0 := rfl

@[simp] theorem totalWidth_cons (width : UInt8) (widths : List UInt8) :
    totalWidth (width :: widths) = width.toNat + totalWidth widths := rfl

@[simp] theorem layOut_nil (start : ℕ) : layOut start [] = [] := rfl

@[simp] theorem layOut_cons (start : ℕ) (width : UInt8) (widths : List UInt8) :
    layOut start (width :: widths) =
      ⟨width, UInt8.ofNat start⟩ :: layOut (start + width.toNat) widths := rfl

theorem startsFit_cons :
    StartsFit start (width :: widths) ↔ start < 256 ∧ StartsFit (start + width.toNat) widths := by
  unfold StartsFit
  rw [List.length_cons, Nat.forall_lt_succ_left]
  simp [Nat.add_assoc]

theorem length_layOut (start : ℕ) (widths : List UInt8) :
    (layOut start widths).length = widths.length := by
  induction widths generalizing start with
  | nil => rfl
  | cons width widths ih => rw [layOut_cons, List.length_cons, ih, List.length_cons]

theorem toNat_offset_of_lt (width : UInt8) (h : start < 256) :
    (⟨width, UInt8.ofNat start⟩ : BitRange).offset.toNat = start :=
  UInt8.toNat_ofNat_of_lt' h

theorem stop_of_lt (width : UInt8) (h : start < 256) :
    (⟨width, UInt8.ofNat start⟩ : BitRange).stop = start + width.toNat := by
  rw [stop, toNat_offset_of_lt width h]

/-- The start of a range is that of the layout and all widths before it. -/
theorem getElem?_layOut_eq_some {k : ℕ} (h : StartsFit start widths)
    (hk : (layOut start widths)[k]? = some r) :
    widths[k]? = some r.width ∧ r.offset.toNat = start + totalWidth (widths.take k) := by
  induction widths generalizing start k with
  | nil => simp at hk
  | cons width widths ih =>
    obtain ⟨hstart, hrest⟩ := startsFit_cons.1 h
    cases k with
    | zero =>
      rw [layOut_cons, List.getElem?_cons_zero, Option.some.injEq] at hk
      subst hk
      exact ⟨rfl, toNat_offset_of_lt width hstart⟩
    | succ k =>
      rw [layOut_cons, List.getElem?_cons_succ] at hk
      obtain ⟨hwidth, hoffset⟩ := ih hrest hk
      refine ⟨hwidth, hoffset.trans ?_⟩
      rw [List.take_succ_cons, totalWidth_cons, Nat.add_assoc]

/-- The ranges cover all positions from the start on, as many as the widths add up to. -/
theorem exists_mem_layOut_iff (h : StartsFit start widths) :
    (∃ r ∈ layOut start widths, p ∈ r) ↔ start ≤ p ∧ p < start + totalWidth widths := by
  -- the start of the rest is a natural number, which the last width may take past all bytes
  induction widths generalizing start with
  | nil =>
    simp only [layOut_nil, totalWidth_nil, List.not_mem_nil, false_and, exists_false, false_iff]
    omega
  | cons width widths ih =>
    obtain ⟨hstart, hrest⟩ := startsFit_cons.1 h
    rw [layOut_cons, List.exists_mem_cons_iff, ih hrest, mem_def, toNat_offset_of_lt width hstart,
      stop_of_lt width hstart, totalWidth_cons]
    omega

theorem le_offset_of_mem_layOut (h : StartsFit start widths) (hr : r ∈ layOut start widths) :
    start ≤ r.offset.toNat := by
  obtain ⟨k, hk⟩ := List.mem_iff_getElem?.1 hr
  rw [(getElem?_layOut_eq_some h hk).2]
  exact Nat.le_add_right _ _

/-- Each range stops before all later ones start. -/
theorem pairwise_layOut (h : StartsFit start widths) :
    (layOut start widths).Pairwise fun r s => r.stop ≤ s.offset.toNat := by
  induction widths generalizing start with
  | nil => exact .nil
  | cons width widths ih =>
    obtain ⟨hstart, hrest⟩ := startsFit_cons.1 h
    refine List.pairwise_cons.2 ⟨fun s hs => ?_, ih hrest⟩
    rw [stop_of_lt width hstart]
    exact le_offset_of_mem_layOut hrest hs

/-- Where every range fits the slot, each starts in it or at its end, so that no offset wraps. -/
theorem startsFit_of_fits (hstart : start < 256) (h : ∀ r ∈ layOut start widths, r.Fits) :
    StartsFit start widths := by
  induction widths generalizing start with
  | nil => exact fun k hk => absurd hk (Nat.not_lt_zero k)
  | cons width widths ih =>
    obtain ⟨hfirst, hrest⟩ := List.forall_mem_cons.1 h
    have hstop : start + width.toNat ≤ 64 := stop_of_lt width hstart ▸ hfirst.2
    exact startsFit_cons.2 ⟨hstart, ih (by omega) hrest⟩

/-- Where every range fits the slot, so does the run of positions that they cover. -/
theorem stop_layOut_le_of_fits (hne : widths ≠ []) (hstarts : StartsFit start widths)
    (h : ∀ r ∈ layOut start widths, r.Fits) :
    0 < totalWidth widths ∧ start + totalWidth widths ≤ 64 := by
  have hpos : 0 < totalWidth widths := by
    obtain ⟨width, widths, rfl⟩ := List.exists_cons_of_ne_nil hne
    exact Nat.add_pos_left (h _ List.mem_cons_self).width_pos _
  -- the last position of the layout is in one of the ranges
  obtain ⟨r, hr, hlast⟩ :=
    (exists_mem_layOut_iff hstarts (p := start + totalWidth widths - 1)).2 (by omega)
  have hlt : start + totalWidth widths - 1 < r.stop := hlast.2
  have hstop : r.stop ≤ 64 := (h r hr).2
  exact ⟨hpos, by omega⟩

/-! ### Masks of a layout -/

theorem mask_and_mask_eq_zero (h : r.stop ≤ s.offset.toNat) : r.mask &&& s.mask = 0 := by
  by_contra hne
  obtain ⟨p, -, hr, hs⟩ := mask_and_mask_ne_zero_iff.1 hne
  exact absurd (Nat.lt_of_lt_of_le hr.2 h) (Nat.not_lt_of_le hs.1)

/-- The masks make up a run of bits, which the end of the slot may cut off. -/
theorem testBit_bitUnion_layOut_iff (h : StartsFit start widths) :
    (bitUnion ((layOut start widths).map mask)).toNat.testBit p ↔
      p < 64 ∧ start ≤ p ∧ p < start + totalWidth widths := by
  rw [testBit_bitUnion_iff, ← exists_mem_layOut_iff h]
  simp only [List.mem_map, exists_exists_and_eq_and, testBit_mask, decide_eq_true_iff]
  constructor
  · rintro ⟨r, hr, hp, hlt⟩
    exact ⟨hlt, r, hr, hp⟩
  · rintro ⟨hlt, r, hr, hp⟩
    exact ⟨r, hr, hp, hlt⟩

/-- Where every range fits the slot, the masks make up the mask of one range. -/
theorem mask_between_eq_bitUnion_layOut (hne : widths ≠ []) (hstarts : StartsFit start widths)
    (hfits : ∀ r ∈ layOut start widths, r.Fits) :
    (between start (start + totalWidth widths)).mask =
      bitUnion ((layOut start widths).map mask) := by
  obtain ⟨hpos, hle⟩ := stop_layOut_le_of_fits hne hstarts hfits
  exact mask_between_eq (Nat.lt_add_of_pos_right hpos) hle fun p =>
    testBit_bitUnion_layOut_iff hstarts

end BitRange

namespace Register

open BitRange

variable {r : Register} {start : ℕ} {widths : List UInt8} {ranges : List BitRange}
  {views : List Register}

/-! ### Views laid end to end -/

/-- A register gives all of some ranges when they fit the slot; the views differ in range only. -/
theorem Valid.forall₂_select_iff (h : r.Valid) :
    List.Forall₂ (fun range view => r.select range = .ok view) ranges views ↔
      (∀ range ∈ ranges, range.Fits) ∧ ranges.map (⟨r.slot, ·⟩) = views := by
  simp only [h.select_eq_ok_iff, List.forall₂_and_left, and_congr_right_iff]
  intro _
  rw [← List.forall₂_eq_eq_eq, List.forall₂_map_left_iff]
  simp only [eq_comm]

theorem not_overlaps_of_mask_and_mask {a b : Register} (h : a.mask &&& b.mask = 0) :
    ¬ a.overlaps b := by
  simp [overlaps, h]

/-- Views laid end to end are the pieces of one view. -/
theorem Valid.exists_spanning_view (h : r.Valid) (hne : widths ≠ [])
    (hstarts : StartsFit start widths) (hfits : ∀ range ∈ layOut start widths, range.Fits) :
    ∃ width v, width.toNat = totalWidth widths ∧ r.select ⟨width, UInt8.ofNat start⟩ = .ok v ∧
      v.mask = bitUnion ((layOut start widths).map BitRange.mask) := by
  obtain ⟨hpos, hle⟩ := stop_layOut_le_of_fits hne hstarts hfits
  have hlt : start < start + totalWidth widths := Nat.lt_add_of_pos_right hpos
  refine ⟨_, _, ?_, h.select_eq_ok_iff.2 ⟨fits_between hlt hle, rfl⟩,
    mask_between_eq_bitUnion_layOut hne hstarts hfits⟩
  have hstop := stop_between hlt hle
  rw [stop, toNat_offset_between hlt hle] at hstop
  exact Nat.add_left_cancel hstop

/-- **Ranges laid end to end tile a run of bits**, whatever their widths, as long as their offsets
are bytes: no bit is in two masks, and the bits of all masks are those from the start up to the sum
of the widths, apart from what lies past the slot. No mask needs a shift by 64 or more. So views of
a register that are laid end to end do not overlap, and the register has a view that is all of them
together. -/
theorem consecutive_ranges_tile :
    (∀ range : BitRange, range.mask? = some range.mask) ∧
    (∀ (start : UInt8) (widths : List UInt8), StartsFit start.toNat widths →
      (layOut start.toNat widths).length = widths.length ∧
      (∀ k range, (layOut start.toNat widths)[k]? = some range →
        widths[k]? = some range.width ∧
        range.offset.toNat = start.toNat + totalWidth (widths.take k)) ∧
      ((layOut start.toNat widths).Pairwise fun range other => range.mask &&& other.mask = 0) ∧
      ∀ p, (bitUnion ((layOut start.toNat widths).map BitRange.mask)).toNat.testBit p ↔
        p < 64 ∧ start.toNat ≤ p ∧ p < start.toNat + totalWidth widths) ∧
    ∀ (r : Register) (start : UInt8) (widths : List UInt8) (views : List Register), r.Valid →
      widths ≠ [] →
      List.Forall₂ (fun range view => r.select range = .ok view) (layOut start.toNat widths) views →
      (views.Pairwise fun a b => ¬ a.overlaps b) ∧
      ∃ width v, width.toNat = totalWidth widths ∧ r.select ⟨width, start⟩ = .ok v ∧
        v.mask = bitUnion (views.map mask) := by
  refine ⟨mask?_eq_some, fun start widths h => ⟨length_layOut _ _,
    fun k range hk => getElem?_layOut_eq_some h hk, (pairwise_layOut h).imp mask_and_mask_eq_zero,
    fun p => testBit_bitUnion_layOut_iff h⟩, fun r start widths views hr hne hviews => ?_⟩
  obtain ⟨hfits, rfl⟩ := hr.forall₂_select_iff.1 hviews
  have hstarts : StartsFit start.toNat widths := startsFit_of_fits start.toNat_lt hfits
  constructor
  · refine List.pairwise_map.2 ((pairwise_layOut hstarts).imp fun hstop => ?_)
    exact not_overlaps_of_mask_and_mask (mask_and_mask_eq_zero hstop)
  · obtain ⟨width, v, hwidth, hselect, hmask⟩ := hr.exists_spanning_view hne hstarts hfits
    rw [UInt8.ofNat_toNat] at hselect
    rw [List.map_map]
    exact ⟨width, v, hwidth, hselect, hmask⟩

/-- Ranges that are empty, leave the slot and stop past all bytes; and three views of different
widths behind the lowest two bytes, which are the rest of the slot. -/
theorem consecutive_ranges_past_slot_and_views :
    (StartsFit 50 [0, 3, 0, 150, 200] ∧
      layOut 50 [0, 3, 0, 150, 200] = [⟨0, 50⟩, ⟨3, 50⟩, ⟨0, 53⟩, ⟨150, 53⟩, ⟨200, 203⟩] ∧
      ((layOut 50 [0, 3, 0, 150, 200]).Pairwise fun range other => range.mask &&& other.mask = 0) ∧
      ∀ p, (bitUnion ((layOut 50 [0, 3, 0, 150, 200]).map BitRange.mask)).toNat.testBit p ↔
        p < 64 ∧ 50 ≤ p ∧ p < 403) ∧
    ∃ (r : Register) (views : List Register), r = ⟨⟨7, ⟨0xc1⟩⟩, ⟨8, 0⟩⟩ ∧ r.Valid ∧
      List.Forall₂ (fun range view => r.select range = .ok view) (layOut 16 [8, 16, 24]) views ∧
      (views.Pairwise fun a b => ¬ a.overlaps b) ∧
      ∃ v, r.select ⟨48, 16⟩ = .ok v ∧ v.mask = bitUnion (views.map mask) := by
  obtain ⟨-, hranges, hviews⟩ := consecutive_ranges_tile
  have hstarts : StartsFit 50 [0, 3, 0, 150, 200] := by decide
  obtain ⟨-, -, hdisjoint, hbits⟩ := hranges 50 _ hstarts
  have hvalid : (⟨⟨7, ⟨0xc1⟩⟩, ⟨8, 0⟩⟩ : Register).Valid := by decide
  have hfits : ∀ range ∈ layOut 16 [8, 16, 24], range.Fits := by decide
  have hselect := hvalid.forall₂_select_iff.2 ⟨hfits, rfl⟩
  obtain ⟨hpairwise, width, v, hwidth, hspan, hmask⟩ :=
    hviews _ 16 [8, 16, 24] _ hvalid (List.cons_ne_nil _ _) hselect
  obtain rfl : width = 48 := UInt8.toNat_inj.1 hwidth
  exact ⟨⟨hstarts, rfl, hdisjoint, hbits⟩, _, _, rfl, hvalid, hselect, hpairwise, v, hspan, hmask⟩

end Register

end VirtualIsa
