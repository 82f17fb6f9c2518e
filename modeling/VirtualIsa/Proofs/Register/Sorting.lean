import VirtualIsa.Proofs.Register.Overlap

/-!
# Sorted registers

Registers are compared by their slots first, and only within a slot by their ranges. So between two
registers of one slot there is room for no other slot, and a list of registers that is sorted falls
into runs, one for each slot. As registers compare equal only if they are equal, nothing is left for
a sorting algorithm to decide.

* `Register.isLE_compare_iff`, the two keys, and `Register.slot_eq_of_between`;
* `Register.eq_sort_iff`: sorting has one result. Main statement: `Register.sort_eq_append`, what
  stands before and behind the registers of a slot;
* `Register.sort_groups_slots`, for every list and in every order of it.
-/

namespace VirtualIsa

namespace Slot

variable {s t : Slot}

/-- The id of the slot is less, or the ids are equal and the byte of its flags is less. -/
def Before (s t : Slot) : Prop :=
  s.id < t.id ∨ s.id = t.id ∧ s.flags.bits < t.flags.bits

instance (s t : Slot) : Decidable (s.Before t) := inferInstanceAs (Decidable (_ ∨ _))

theorem compare_eq_lt_iff : compare s t = .lt ↔ s.Before t := by
  have hid : compare s.id t.id = .lt ↔ s.id < t.id := compareOfLessAndEq_eq_lt
  have hflags : compare s.flags t.flags = .lt ↔ s.flags.bits < t.flags.bits :=
    compareOfLessAndEq_eq_lt
  show (compare s.id t.id).then (compare s.flags t.flags) = .lt ↔ s.Before t
  rw [Ordering.then_eq_lt, hid, hflags, Std.LawfulEqOrd.compare_eq_iff_eq, Before]

end Slot

namespace Register

variable {a b c : Register} {rs rs' ss : List Register} {i k : Nat}

/-! ### The two keys -/

/-- Ranges are compared only within a slot. -/
theorem isLE_compare_iff : (compare a b).isLE ↔
    compare a.slot b.slot = .lt ∨ a.slot = b.slot ∧ (compare a.range b.range).isLE := by
  show ((compare a.slot b.slot).then (compare a.range b.range)).isLE ↔ _
  rw [Ordering.isLE_then_iff_or, Slot.compare_eq_iff]

theorem isLE_compare_slot (h : (compare a b).isLE) : (compare a.slot b.slot).isLE := by
  rcases isLE_compare_iff.1 h with hlt | ⟨heq, -⟩
  · exact Ordering.isLE_of_eq_lt hlt
  · exact Ordering.isLE_of_eq_eq (Slot.compare_eq_iff.2 heq)

/-- Between two registers of one slot there are only registers of that slot. -/
theorem slot_eq_of_between (hac : (compare a c).isLE) (hcb : (compare c b).isLE)
    (h : a.slot = b.slot) : c.slot = a.slot := by
  have hca : (compare c.slot a.slot).isLE := h ▸ isLE_compare_slot hcb
  exact Slot.compare_eq_iff.1 (Std.OrientedCmp.isLE_antisymm hca (isLE_compare_slot hac))

theorem compare_eq_iff_fields : compare a b = .eq ↔
    a.slot.id = b.slot.id ∧ a.slot.flags.bits = b.slot.flags.bits ∧
      a.range.width = b.range.width ∧ a.range.offset = b.range.offset := by
  rw [compare_eq_iff, Register.ext_iff, Slot.eq_iff, BitRange.ext_iff, and_assoc]

/-! ### The result of sorting -/

/-- Only one order of the registers is sorted. -/
theorem eq_sort_iff :
    ss = sort rs ↔ ss.Perm rs ∧ ss.Pairwise fun a b => (compare a b).isLE := by
  constructor
  · rintro rfl
    exact ⟨sort_perm rs, pairwise_sort rs⟩
  · rintro ⟨hperm, hpairwise⟩
    have hantisymm (a b : Register) (hab : (compare a b).isLE) (hba : (compare b a).isLE) : a = b :=
      compare_eq_iff.1 (Std.OrientedCmp.isLE_antisymm hab hba)
    exact List.Perm.eq_of_pairwise (fun a b _ _ => hantisymm a b) hpairwise (pairwise_sort rs)
      (hperm.trans (sort_perm rs).symm)

theorem sort_eq_of_perm (h : rs.Perm rs') : sort rs = sort rs' :=
  eq_sort_iff.2 ⟨(sort_perm rs).trans h, pairwise_sort rs⟩

/-- Lists of registers whose slots follow each other are sorted one by one. -/
theorem sort_append (h : ∀ a ∈ rs, ∀ b ∈ ss, compare a.slot b.slot = .lt) :
    sort (rs ++ ss) = sort rs ++ sort ss := by
  refine (eq_sort_iff.2 ⟨(sort_perm rs).append (sort_perm ss), ?_⟩).symm
  refine List.pairwise_append.2 ⟨pairwise_sort rs, pairwise_sort ss, fun a ha b hb => ?_⟩
  have hlt : compare a.slot b.slot = .lt :=
    h a ((sort_perm rs).mem_iff.1 ha) b ((sort_perm ss).mem_iff.1 hb)
  exact isLE_compare_iff.2 (.inl hlt)

/-- The registers before a slot, in it and after it are all registers. -/
theorem perm_of_slot (rs : List Register) (s : Slot) :
    (rs.filter (compare ·.slot s = .lt) ++ rs.filter (·.slot = s) ++
      rs.filter (compare s ·.slot = .lt)).Perm rs := by
  induction rs with
  | nil => rfl
  | cons r rs ih =>
    have hgt : compare r.slot s = .gt ↔ compare s r.slot = .lt := Std.OrientedCmp.gt_iff_lt
    cases hr : compare r.slot s with
    | lt =>
      have hne : r.slot ≠ s := fun he => by simp [Slot.compare_eq_iff.2 he] at hr
      have hns : compare s r.slot ≠ .lt := by simp [← hgt, hr]
      simpa [List.filter_cons, hr, hne, hns] using ih
    | eq =>
      have heq : r.slot = s := Slot.compare_eq_iff.1 hr
      have hns : compare s r.slot ≠ .lt := by simp [← hgt, hr]
      rw [List.append_assoc] at ih
      simpa [List.filter_cons, hr, heq, hns] using List.perm_middle.trans (ih.cons r)
    | gt =>
      have hne : r.slot ≠ s := fun he => by simp [Slot.compare_eq_iff.2 he] at hr
      simpa [List.filter_cons, hr, hne, hgt.1 hr] using List.perm_middle.trans (ih.cons r)

/-- The registers of a slot stand together, behind all of lesser slots and before all of greater
slots. -/
theorem sort_eq_append (rs : List Register) (s : Slot) :
    sort rs = sort (rs.filter (compare ·.slot s = .lt)) ++ sort (rs.filter (·.slot = s)) ++
      sort (rs.filter (compare s ·.slot = .lt)) := by
  have hbefore : ∀ a ∈ rs.filter (compare ·.slot s = .lt), compare a.slot s = .lt :=
    fun a ha => of_decide_eq_true (List.mem_filter.1 ha).2
  have hin : ∀ a ∈ rs.filter (·.slot = s), a.slot = s :=
    fun a ha => of_decide_eq_true (List.mem_filter.1 ha).2
  have hafter : ∀ a ∈ rs.filter (compare s ·.slot = .lt), compare s a.slot = .lt :=
    fun a ha => of_decide_eq_true (List.mem_filter.1 ha).2
  rw [← sort_eq_of_perm (perm_of_slot rs s), sort_append, sort_append]
  · intro a ha b hb
    rw [hin b hb]
    exact hbefore a ha
  · intro a ha b hb
    rcases List.mem_append.1 ha with ha | ha
    · exact Std.TransCmp.lt_trans (hbefore a ha) (hafter b hb)
    · rw [hin a ha]
      exact hafter b hb

theorem isLE_of_getElem? (h : i ≤ k) (ha : (sort rs)[i]? = some a) (hc : (sort rs)[k]? = some c) :
    (compare a c).isLE := by
  obtain ⟨hi, rfl⟩ := List.getElem?_eq_some_iff.1 ha
  obtain ⟨hk, rfl⟩ := List.getElem?_eq_some_iff.1 hc
  rcases Nat.eq_or_lt_of_le h with rfl | hlt
  · exact Std.ReflCmp.isLE_rfl
  · exact List.pairwise_iff_getElem.1 (pairwise_sort rs) i k hi hk hlt

/-- **Sorting groups the registers of each slot.** Between two registers of one slot stand only
registers of that slot, in the order of registers and so in every sorted list: the registers of a
slot form one run, with lesser slots before and greater slots behind it, and what stands between two
registers that overlap is of their slot. As only equal registers compare equal, a list has one
sorted order, which is the same for every permutation of the list. -/
theorem sort_groups_slots :
    (∀ a b c : Register, (compare a c).isLE → (compare c b).isLE → a.slot = b.slot →
      c.slot = a.slot) ∧
    (∀ a b : Register, compare a b = .eq ↔
      a.slot.id = b.slot.id ∧ a.slot.flags.bits = b.slot.flags.bits ∧
      a.range.width = b.range.width ∧ a.range.offset = b.range.offset) ∧
    ∀ rs : List Register,
      (∀ ss, ss = sort rs ↔ ss.Perm rs ∧ ss.Pairwise fun a b => (compare a b).isLE) ∧
      (∀ s : Slot, ∃ before after,
        sort rs = before ++ sort (rs.filter (·.slot = s)) ++ after ∧
        (∀ r ∈ before, r.slot.Before s) ∧ ∀ r ∈ after, s.Before r.slot) ∧
      (∀ (i k j : Nat) (a c b : Register), i ≤ k → k ≤ j → (sort rs)[i]? = some a →
        (sort rs)[k]? = some c → (sort rs)[j]? = some b → a.overlaps b → c.slot = a.slot) ∧
      ∀ rs', rs'.Perm rs → sort rs' = sort rs := by
  refine ⟨fun a b c => slot_eq_of_between, fun a b => compare_eq_iff_fields, fun rs =>
    ⟨fun ss => eq_sort_iff, fun s => ⟨_, _, sort_eq_append rs s, fun r hr => ?_, fun r hr => ?_⟩,
    fun i k j a c b hik hkj ha hc hb hoverlap => ?_, fun rs' => sort_eq_of_perm⟩⟩
  · have hmem := (sort_perm _).mem_iff.1 hr
    exact Slot.compare_eq_lt_iff.1 (of_decide_eq_true (List.mem_filter.1 hmem).2)
  · have hmem := (sort_perm _).mem_iff.1 hr
    exact Slot.compare_eq_lt_iff.1 (of_decide_eq_true (List.mem_filter.1 hmem).2)
  · exact slot_eq_of_between (isLE_of_getElem? hik ha hc) (isLE_of_getElem? hkj hc hb)
      (overlaps_iff.1 hoverlap).1

/-- Three views of a virtual slot, of which the lowest stands between two that overlap, with a
physical register of the same id and one whose id is less although its flags are greater. -/
theorem sort_of_mixed_views :
    ∃ low high whole physical first : Register,
      low = ⟨⟨1, ⟨0⟩⟩, ⟨16, 0⟩⟩ ∧ high = ⟨⟨1, ⟨0⟩⟩, ⟨8, 8⟩⟩ ∧ whole = ⟨⟨1, ⟨0⟩⟩, ⟨64, 0⟩⟩ ∧
      physical = ⟨⟨1, ⟨1⟩⟩, ⟨8, 0⟩⟩ ∧ first = ⟨⟨0, ⟨0xc1⟩⟩, ⟨64, 0⟩⟩ ∧
      sort [low, physical, whole, first, high] = [first, high, low, whole, physical] ∧
      sort [physical, high, first, low, whole] = [first, high, low, whole, physical] ∧
      high.overlaps whole ∧ low.slot = high.slot := by
  refine ⟨_, _, _, _, _, rfl, rfl, rfl, rfl, rfl, ?_⟩
  obtain ⟨-, -, hsort⟩ := sort_groups_slots
  obtain ⟨hunique, -, hbetween, hperm⟩ :=
    hsort [⟨⟨1, ⟨0⟩⟩, ⟨16, 0⟩⟩, ⟨⟨1, ⟨1⟩⟩, ⟨8, 0⟩⟩, ⟨⟨1, ⟨0⟩⟩, ⟨64, 0⟩⟩, ⟨⟨0, ⟨0xc1⟩⟩, ⟨64, 0⟩⟩,
      ⟨⟨1, ⟨0⟩⟩, ⟨8, 8⟩⟩]
  have hsorted := (hunique [⟨⟨0, ⟨0xc1⟩⟩, ⟨64, 0⟩⟩, ⟨⟨1, ⟨0⟩⟩, ⟨8, 8⟩⟩, ⟨⟨1, ⟨0⟩⟩, ⟨16, 0⟩⟩,
    ⟨⟨1, ⟨0⟩⟩, ⟨64, 0⟩⟩, ⟨⟨1, ⟨1⟩⟩, ⟨8, 0⟩⟩]).2 (by decide)
  rw [← hsorted] at hbetween
  have hoverlap : (⟨⟨1, ⟨0⟩⟩, ⟨8, 8⟩⟩ : Register).overlaps ⟨⟨1, ⟨0⟩⟩, ⟨64, 0⟩⟩ := by decide
  exact ⟨hsorted.symm, (hperm _ (by decide)).trans hsorted.symm, hoverlap,
    hbetween 1 2 3 _ _ _ (by omega) (by omega) rfl rfl rfl hoverlap⟩

end Register

end VirtualIsa
