import VirtualIsa.Proofs.Register.Creation
import VirtualIsa.Proofs.Register.Overlap

/-!
# Runs of requests for ranges of a slot

A program may ask for one range of a slot after another. Each request goes to the register to which
the requests before it have led, and a request that fails changes nothing. Offsets always count from
the start of the slot, so that a range is not cut out of the range before it.

* `Register.Valid.select_eq_ok_iff` and `Register.Valid.select_eq_error_iff`: a valid register gives
  every range that fits its slot, and of the others it reports only what is wrong with the range;
* `Register.requestAll`, the register after a run of requests, and `Register.granted`, the ranges of
  those that succeeded. Main statement: `Register.requests_change_range_only`, a run leads to the
  last range that was granted in the slot in which it began.
-/

namespace VirtualIsa

namespace Register

variable {r s : Register} {range : BitRange} {ranges ranges' : List BitRange} {fault : Fault}

/-! ### One request -/

/-- The range alone decides whether it can be selected: the rules for the slot hold already. -/
theorem Valid.select_eq_ok_iff (h : r.Valid) :
    r.select range = .ok s ↔ range.Fits ∧ s = ⟨r.slot, range⟩ := by
  rw [select, create_eq_ok_iff]
  constructor
  · rintro ⟨rfl, hs⟩
    exact ⟨hs.fits, rfl⟩
  · rintro ⟨hfits, rfl⟩
    exact ⟨rfl, hfits, h.special, h.physical_global⟩

/-- Only the range can be at fault. -/
theorem Valid.select_eq_error_iff (h : r.Valid) :
    r.select range = .error fault ↔
      range.width.toNat = 0 ∧ fault = .zeroWidth ∨
      1 ≤ range.width.toNat ∧ 64 < range.width.toNat + range.offset.toNat ∧
        fault = .outOfRange range := by
  have hspecial : ¬ (⟨r.slot, range⟩ : Register).Breaks .invalidSpecial :=
    valid_iff_forall_not_breaks.1 h .invalidSpecial
  have hlocal : ¬ (⟨r.slot, range⟩ : Register).Breaks .physicalLocal :=
    valid_iff_forall_not_breaks.1 h .physicalLocal
  rw [select, create_eq_error_iff, fault?_eq_ite, if_neg hspecial, if_neg hlocal]
  split_ifs with hwidth hstop
  · have hzero : range.width.toNat = 0 := hwidth
    simp [hzero, eq_comm (a := fault)]
  · have hpos : range.width.toNat ≠ 0 := hwidth
    have hlong : 64 < range.width.toNat + range.offset.toNat := hstop.2
    simp [hpos, hlong, Nat.one_le_iff_ne_zero, eq_comm (a := fault)]
  · have hpos : range.width.toNat ≠ 0 := hwidth
    have hshort : ¬ 64 < range.width.toNat + range.offset.toNat := fun hlt => hstop ⟨rfl, hlt⟩
    simp [hpos, hshort]

/-- The register after a request for another range: a request that fails changes nothing. -/
def request (r : Register) (range : BitRange) : Register :=
  match r.select range with
  | .ok s => s
  | .error _ => r

theorem slot_request (r : Register) (range : BitRange) : (r.request range).slot = r.slot := by
  unfold request
  cases h : r.select range with
  | ok s => rw [(create_eq_ok_iff.1 h).1]
  | error fault => rfl

theorem valid_request (h : r.Valid) (range : BitRange) : (r.request range).Valid := by
  unfold request
  cases hs : r.select range with
  | ok s => exact (create_eq_ok_iff.1 hs).2
  | error fault => exact h

/-! ### Runs of requests -/

/-- The register after a run of requests, from first to last. -/
def requestAll (r : Register) (ranges : List BitRange) : Register := ranges.foldl request r

/-- The ranges of the requests that succeed, each at the register to which the requests before it
have led. -/
def granted (r : Register) : List BitRange → List BitRange
  | [] => []
  | range :: ranges =>
    match r.select range with
    | .ok s => range :: s.granted ranges
    | .error _ => r.granted ranges

@[simp] theorem requestAll_nil (r : Register) : r.requestAll [] = r := rfl

@[simp] theorem requestAll_cons (r : Register) (range : BitRange) (ranges : List BitRange) :
    r.requestAll (range :: ranges) = (r.request range).requestAll ranges := rfl

theorem slot_requestAll (r : Register) (ranges : List BitRange) :
    (r.requestAll ranges).slot = r.slot := by
  induction ranges generalizing r with
  | nil => rfl
  | cons range ranges ih => rw [requestAll_cons, ih, slot_request]

theorem valid_requestAll (h : r.Valid) (ranges : List BitRange) : (r.requestAll ranges).Valid := by
  induction ranges generalizing r with
  | nil => exact h
  | cons range ranges ih => exact ih (valid_request h range)

/-- A run leads to the last range that was granted. -/
theorem range_requestAll (r : Register) (ranges : List BitRange) :
    (r.requestAll ranges).range = (r.granted ranges).getLast?.getD r.range := by
  induction ranges generalizing r with
  | nil => rfl
  | cons range ranges ih =>
    rw [requestAll_cons, ih, granted, request]
    cases h : r.select range with
    | ok s =>
      obtain ⟨rfl, -⟩ := create_eq_ok_iff.1 h
      simp [List.getLast?_cons]
    | error fault => rfl

/-- What is granted does not depend on the requests before it. -/
theorem Valid.granted_eq_filter (h : r.Valid) (ranges : List BitRange) :
    r.granted ranges = ranges.filter (·.Fits) := by
  -- the run may move on to another register, but to a valid one
  induction ranges generalizing r with
  | nil => rfl
  | cons range ranges ih =>
    rw [granted]
    by_cases hfits : range.Fits
    · have hs := h.select_eq_ok_iff.2 ⟨hfits, rfl⟩
      have hvalid := (create_eq_ok_iff.1 hs).2
      simp [hs, hfits, ih hvalid]
    · cases hs : r.select range with
      | ok s => exact absurd (h.select_eq_ok_iff.1 hs).1 hfits
      | error fault => simp [hfits, ih h]

/-- Registers to which runs lead from one register share its slot, so that only their ranges decide
whether they overlap. -/
theorem Valid.overlaps_requestAll_iff (h : r.Valid) (ranges ranges' : List BitRange) :
    (r.requestAll ranges).overlaps (r.requestAll ranges') ↔
      (r.requestAll ranges).range.offset.toNat < (r.requestAll ranges').range.stop ∧
      (r.requestAll ranges').range.offset.toNat < (r.requestAll ranges).range.stop := by
  rw [(valid_requestAll h ranges).overlaps_iff (valid_requestAll h ranges')]
  rw [slot_requestAll, slot_requestAll]
  exact and_iff_right rfl

/-- **Requests change the range and nothing else.** After any run of requests, whatever its
successes and failures, a further request succeeds exactly when its range is not empty and ends in
the slot, and it gives that range of the slot in which the run began; if it fails, then only its
range is at fault. The register is valid, and its range is the last one that was granted. Two such
registers overlap exactly when their ranges intersect. -/
theorem requests_change_range_only {r : Register} (h : r.Valid) (ranges : List BitRange) :
    (∀ range,
      ((∃ s, (r.requestAll ranges).select range = .ok s) ↔
        1 ≤ range.width.toNat ∧ range.width.toNat + range.offset.toNat ≤ 64) ∧
      (∀ s, (r.requestAll ranges).select range = .ok s → s = ⟨r.slot, range⟩) ∧
      ∀ fault, (r.requestAll ranges).select range = .error fault ↔
        range.width.toNat = 0 ∧ fault = .zeroWidth ∨
        1 ≤ range.width.toNat ∧ 64 < range.width.toNat + range.offset.toNat ∧
          fault = .outOfRange range) ∧
    (r.requestAll ranges).Valid ∧
    (r.requestAll ranges).slot.id = r.slot.id ∧
    (r.requestAll ranges).slot.flags.bits = r.slot.flags.bits ∧
    (r.requestAll ranges).range = (r.granted ranges).getLast?.getD r.range ∧
    r.granted ranges = ranges.filter (·.Fits) ∧
    ∀ ranges', (r.requestAll ranges).overlaps (r.requestAll ranges') ↔
      (r.requestAll ranges).range.offset.toNat < (r.requestAll ranges').range.stop ∧
      (r.requestAll ranges').range.offset.toNat < (r.requestAll ranges).range.stop := by
  have hvalid := valid_requestAll h ranges
  have hslot := slot_requestAll r ranges
  refine ⟨fun range => ⟨?_, fun s hs => ?_, fun fault => hvalid.select_eq_error_iff⟩, hvalid,
    by rw [hslot], by rw [hslot], range_requestAll r ranges, h.granted_eq_filter ranges,
    h.overlaps_requestAll_iff ranges⟩
  · rw [← BitRange.fits_iff]
    constructor
    · rintro ⟨s, hs⟩
      exact (hvalid.select_eq_ok_iff.1 hs).1
    · intro hfits
      exact ⟨_, hvalid.select_eq_ok_iff.2 ⟨hfits, rfl⟩⟩
  · rw [(hvalid.select_eq_ok_iff.1 hs).2, hslot]

/-- From the lowest byte of the stack pointer a run leads to its upper half, past an empty range and
one that leaves the slot; the third byte from the top is part of that half and the lowest half is
not. -/
theorem requestAll_of_stackPointer :
    stackPointer.Valid ∧
    (stackPointer.requestAll [⟨8, 0⟩, ⟨0, 70⟩, ⟨32, 32⟩, ⟨200, 100⟩]).range = ⟨32, 32⟩ ∧
    (stackPointer.requestAll [⟨8, 0⟩, ⟨0, 70⟩]).select ⟨64, 1⟩ = .error (.outOfRange ⟨64, 1⟩) ∧
    (stackPointer.requestAll [⟨8, 0⟩, ⟨0, 70⟩, ⟨32, 32⟩]).overlaps
      (stackPointer.requestAll [⟨8, 40⟩]) ∧
    ¬ (stackPointer.requestAll [⟨8, 0⟩, ⟨0, 70⟩, ⟨32, 32⟩]).overlaps
      (stackPointer.requestAll [⟨16, 16⟩, ⟨32, 0⟩]) := by
  obtain ⟨-, -, -, -, hrange, hgranted, -⟩ :=
    requests_change_range_only valid_stackPointer [⟨8, 0⟩, ⟨0, 70⟩, ⟨32, 32⟩, ⟨200, 100⟩]
  obtain ⟨hselect, -⟩ := requests_change_range_only valid_stackPointer [⟨8, 0⟩, ⟨0, 70⟩]
  obtain ⟨-, -, -, -, -, -, hoverlaps⟩ :=
    requests_change_range_only valid_stackPointer [⟨8, 0⟩, ⟨0, 70⟩, ⟨32, 32⟩]
  refine ⟨valid_stackPointer, ?_, (hselect _).2.2 _ |>.2 (by decide), (hoverlaps _).2 (by decide),
    fun hover => absurd ((hoverlaps _).1 hover) (by decide)⟩
  rw [hrange, hgranted]
  decide

end Register

end VirtualIsa
