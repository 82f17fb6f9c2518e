import Mathlib.Algebra.Group.Int.Defs
import Mathlib.Algebra.Group.Nat.Defs
import VirtualIsa.Proofs.Instruction.Rows

/-!
# What table entries reach

A table entry is a signed word of 32 bits, and its target is read off the sign and the magnitude. Of
the two signs the negative one goes one further: the least entry has no counterpart among the
positive ones, and its magnitude is a number only as an unsigned word.

* `BranchTarget.magnitude`, the magnitude of an entry as a word from which one can be taken away
  unless the entry is zero. Main statement: `BranchTarget.ofSigned?_eq_ite`, how a target is read
  from it;
* `exists_toInt_eq_iff`, the numbers that are entries. Main statement:
  `BranchTarget.entries_name_targets_in_reach`, which targets have an entry, and that they have
  only one.
-/

namespace VirtualIsa

/-- The numbers that a table can hold. -/
theorem exists_toInt_eq_iff {n : ℤ} :
    (∃ entry : Int32, entry.toInt = n) ↔ -2 ^ 31 ≤ n ∧ n < 2 ^ 31 := by
  constructor
  · rintro ⟨entry, rfl⟩
    exact ⟨entry.le_toInt, entry.toInt_lt⟩
  · rintro ⟨hle, hlt⟩
    exact ⟨Int32.ofInt n, Int32.toInt_ofInt_of_le hle hlt⟩

namespace BranchTarget

variable {entry : Int32} {entries : List Int32} {k : ℕ}

/-! ### The magnitude of an entry -/

/-- The magnitude of an entry. In a signed word the least entry would be its own magnitude. -/
def magnitude (entry : Int32) : UInt64 := entry.abs.toUInt32.toUInt64

theorem toNat_magnitude (entry : Int32) : (magnitude entry).toNat = entry.toInt.natAbs := by
  have hword : (magnitude entry).toNat = entry.toBitVec.abs.toNat := rfl
  have hint : entry.toInt = entry.toBitVec.toInt := rfl
  have hlt : entry.toBitVec.toNat < 2 ^ 32 := entry.toBitVec.isLt
  rw [hword, hint, BitVec.toNat_abs, BitVec.toInt_eq_msb_cond]
  split_ifs with hneg
  · omega
  · omega

/-- Only from the magnitude of zero one cannot be taken away. -/
theorem one_le_magnitude (h : entry ≠ 0) : 1 ≤ magnitude entry := by
  have hint : entry.toInt ≠ 0 := fun h0 => h (Int32.toInt_inj.1 h0)
  rw [UInt64.le_iff_toNat_le, toNat_magnitude, UInt64.toNat_one]
  omega

theorem toNat_magnitude_sub_one (h : entry ≠ 0) :
    (magnitude entry - 1).toNat + 1 = entry.toInt.natAbs := by
  have hle : 1 ≤ magnitude entry := one_le_magnitude h
  rw [UInt64.toNat_sub_of_le _ _ hle, ← toNat_magnitude]
  exact Nat.sub_add_cancel (UInt64.le_iff_toNat_le.1 hle)

/-- The sign of an entry is the kind of its target, and the operand is counted from zero. -/
theorem ofSigned?_eq_ite (entry : Int32) : ofSigned? entry =
    if 0 < entry then some (.virtual (magnitude entry - 1).toNat)
    else if entry < 0 then some (.native (magnitude entry - 1).toNat)
    else none := by
  have hzero : entry = 0 ↔ entry.toInt = 0 := Int32.toInt_inj.symm
  split_ifs with hpos hneg
  · rw [Int32.lt_iff_toInt_lt, Int32.toInt_zero] at hpos
    have hoperand := toNat_magnitude_sub_one (mt hzero.1 (by omega))
    rw [ofSigned?_eq_some_iff, signed]
    omega
  · rw [Int32.lt_iff_toInt_lt, Int32.toInt_zero] at hneg
    have hoperand := toNat_magnitude_sub_one (mt hzero.1 (by omega))
    rw [ofSigned?_eq_some_iff, signed]
    omega
  · rw [Int32.lt_iff_toInt_lt, Int32.toInt_zero] at hpos hneg
    rw [ofSigned?_eq_none_iff, hzero]
    omega

/-! ### Targets that have an entry -/

theorem exists_ofSigned?_iff {t : BranchTarget} :
    (∃ entry, ofSigned? entry = some t) ↔ -2 ^ 31 ≤ t.signed ∧ t.signed < 2 ^ 31 := by
  simp only [ofSigned?_eq_some_iff]
  exact exists_toInt_eq_iff

theorem exists_ofSigned?_virtual_iff :
    (∃ entry, ofSigned? entry = some (.virtual k)) ↔ k ≤ 2 ^ 31 - 2 := by
  rw [exists_ofSigned?_iff, signed]
  omega

/-- There is one more native target than there are virtual ones. -/
theorem exists_ofSigned?_native_iff :
    (∃ entry, ofSigned? entry = some (.native k)) ↔ k ≤ 2 ^ 31 - 1 := by
  rw [exists_ofSigned?_iff, signed]
  omega

/-- Different entries are different targets, as the number of a target is its entry. -/
theorem ofSigned?_injective : Function.Injective ofSigned? := by
  intro entry entry' h
  cases ht : ofSigned? entry' with
  | none =>
    rw [ht] at h
    rw [ofSigned?_eq_none_iff.1 h, ofSigned?_eq_none_iff.1 ht]
  | some t =>
    rw [ht] at h
    have hentry : entry.toInt = t.signed := ofSigned?_eq_some_iff.1 h
    have hentry' : entry'.toInt = t.signed := ofSigned?_eq_some_iff.1 ht
    exact Int32.toInt_inj.1 (hentry.trans hentry'.symm)

/-- **Table entries and the targets within their reach stand for each other**, zero apart, which is
no target. One can be taken away from the magnitude of every other entry, and the sign and the
operand give the entry back. The virtual targets in reach end one before the native ones, the last
of which has the least entry. So different entries without a zero are different targets, in lists
as well. -/
theorem entries_name_targets_in_reach :
    (∀ entry, ofSigned? entry = none ↔ entry = 0) ∧
    (∀ entry, entry ≠ 0 → 1 ≤ magnitude entry ∧ (magnitude entry).toNat = entry.toInt.natAbs) ∧
    (∀ entry, ofSigned? entry =
      if 0 < entry then some (.virtual (magnitude entry - 1).toNat)
      else if entry < 0 then some (.native (magnitude entry - 1).toNat)
      else none) ∧
    (∀ entry k, ofSigned? entry = some (.virtual k) ↔ entry.toInt = k + 1) ∧
    (∀ entry k, ofSigned? entry = some (.native k) ↔ entry.toInt = -(k + 1)) ∧
    (∀ k, (∃ entry, ofSigned? entry = some (.virtual k)) ↔ k ≤ 2 ^ 31 - 2) ∧
    (∀ k, (∃ entry, ofSigned? entry = some (.native k)) ↔ k ≤ 2 ^ 31 - 1) ∧
    ofSigned? Int32.minValue = some (.native (2 ^ 31 - 1)) ∧
    Function.Injective ofSigned? ∧
    ∀ entries entries', 0 ∉ entries → 0 ∉ entries' →
      ∃ ts ts', ofSignedList? entries = some ts ∧ ofSignedList? entries' = some ts' ∧
        (ts = ts' ↔ entries = entries') := by
  refine ⟨fun entry => ofSigned?_eq_none_iff,
    fun entry h => ⟨one_le_magnitude h, toNat_magnitude entry⟩, ofSigned?_eq_ite,
    fun entry k => ofSigned?_eq_some_iff, fun entry k => ofSigned?_eq_some_iff,
    fun k => exists_ofSigned?_virtual_iff, fun k => exists_ofSigned?_native_iff, ?_,
    ofSigned?_injective, fun entries entries' h h' => ?_⟩
  · rw [ofSigned?_eq_some_iff, Int32.toInt_minValue, signed]
    omega
  · obtain ⟨ts, hts⟩ := exists_ofSignedList? h
    obtain ⟨ts', hts'⟩ := exists_ofSignedList? h'
    exact ⟨ts, ts', hts, hts', (ofSignedList?_inj hts hts').symm⟩

/-- The two ends of the words, next to each other in a list, and the first virtual target that has
no entry. -/
theorem entries_at_limits :
    magnitude Int32.minValue = 2147483648 ∧
    ofSigned? Int32.minValue = some (.native 2147483647) ∧
    ofSigned? Int32.maxValue = some (.virtual 2147483646) ∧
    (∀ entry, ofSigned? entry ≠ some (.virtual 2147483647)) ∧
    ofSignedList? [Int32.minValue, Int32.maxValue] ≠
      ofSignedList? [Int32.maxValue, Int32.minValue] := by
  obtain ⟨-, hmagnitude, -, hvirtual, -, hreach, -, hleast, -, hlists⟩ :=
    entries_name_targets_in_reach
  refine ⟨?_, hleast, (hvirtual _ _).2 Int32.toInt_maxValue, fun entry h => ?_, fun h => ?_⟩
  · exact UInt64.toNat_inj.1 (hmagnitude Int32.minValue (by decide)).2
  · exact absurd ((hreach _).1 ⟨entry, h⟩) (by decide)
  · obtain ⟨ts, ts', hts, hts', hequal⟩ :=
      hlists [Int32.minValue, Int32.maxValue] [Int32.maxValue, Int32.minValue] (by decide)
        (by decide)
    rw [hts, hts', Option.some.injEq, hequal] at h
    exact absurd h (by decide)

end BranchTarget

end VirtualIsa
