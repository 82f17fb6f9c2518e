import Mathlib.Data.Nat.Notation
import Mathlib.Logic.Basic
import Mathlib.Tactic.SplitIfs
import VirtualIsa.Proofs.Register.Making

/-!
# Which registers can be created, and what is reported of the others

The rules for registers do not depend on each other, so that a slot and a range may break several
of them at once. They are tried in a fixed order, and the first broken one is the report.

* `Register.Breaks r fault`, the rule that `fault` reports is broken, whatever others are, and
  `Fault.rank`, the place of a rule in the order;
* `Register.BreaksFirst`, and `Register.fault?_eq_some_iff`, the fault that is found is that of the
  first broken rule. Main statement: `Register.create_ok_or_first_fault`, where declarations give
  the same registers and abort on the same faults, and whatever is made is valid.
-/

namespace VirtualIsa

/-- The place of the broken rule in the order in which the rules are tried. -/
def Fault.rank : Fault → ℕ
  | zeroWidth => 0
  | outOfRange _ => 1
  | invalidSpecial => 2
  | physicalLocal => 3

theorem BitRange.fits_iff {range : BitRange} :
    range.Fits ↔ 1 ≤ range.width.toNat ∧ range.width.toNat + range.offset.toNat ≤ 64 := by
  have hwidth : range.width ≠ 0 ↔ 1 ≤ range.width.toNat := by
    rw [Nat.one_le_iff_ne_zero, ne_eq, ne_eq, ← UInt8.toNat_inj]
    rfl
  rw [Fits, hwidth, stop, Nat.add_comm]

namespace Register

variable {r : Register} {slot : Slot} {range : BitRange} {fault : Fault}

/-! ### Broken rules -/

/-- The register breaks the rule that the fault reports. A range that is too long is reported as
it is. -/
def Breaks (r : Register) : Fault → Prop
  | .zeroWidth => r.range.width.toNat = 0
  | .outOfRange range => range = r.range ∧ 64 < r.range.width.toNat + r.range.offset.toNat
  | .invalidSpecial =>
    (.statusFlags ∈ r.slot.flags ∨ .stackPointer ∈ r.slot.flags) ∧
      (.physical ∉ r.slot.flags ∨ .volatile ∈ r.slot.flags ∨ .readOnly ∈ r.slot.flags)
  | .physicalLocal => .physical ∈ r.slot.flags ∧ .blockLocal ∈ r.slot.flags

instance (r : Register) : (fault : Fault) → Decidable (r.Breaks fault)
  | .zeroWidth => inferInstanceAs (Decidable (_ = _))
  | .outOfRange _ => inferInstanceAs (Decidable (_ ∧ _))
  | .invalidSpecial => inferInstanceAs (Decidable (_ ∧ _))
  | .physicalLocal => inferInstanceAs (Decidable (_ ∧ _))

/-- The fault reports the first rule that the register breaks. -/
def BreaksFirst (r : Register) (fault : Fault) : Prop :=
  r.Breaks fault ∧ ∀ other, r.Breaks other → fault.rank ≤ other.rank

/-- Two reports of one broken rule are the same. -/
theorem Breaks.eq_of_rank_eq {f g : Fault} (hf : r.Breaks f) (hg : r.Breaks g)
    (h : f.rank = g.rank) : f = g := by
  cases f <;> cases g <;> simp_all [Fault.rank, Breaks]

theorem BreaksFirst.unique {f g : Fault} (hf : r.BreaksFirst f) (hg : r.BreaksFirst g) : f = g :=
  hf.1.eq_of_rank_eq hg.1 (Nat.le_antisymm (hf.2 g hg.1) (hg.2 f hf.1))

theorem valid_iff_rules : r.Valid ↔
    1 ≤ r.range.width.toNat ∧ r.range.width.toNat + r.range.offset.toNat ≤ 64 ∧
    (.statusFlags ∈ r.slot.flags ∨ .stackPointer ∈ r.slot.flags →
      .physical ∈ r.slot.flags ∧ .volatile ∉ r.slot.flags ∧ .readOnly ∉ r.slot.flags) ∧
    ¬ (.physical ∈ r.slot.flags ∧ .blockLocal ∈ r.slot.flags) := by
  rw [valid_iff, BitRange.fits_iff, and_assoc, not_and]

theorem valid_iff_forall_not_breaks : r.Valid ↔ ∀ fault, ¬ r.Breaks fault := by
  rw [valid_iff_rules]
  constructor
  · rintro ⟨hwidth, hstop, hspecial, hlocal⟩ fault hb
    cases fault with
    | zeroWidth => exact Nat.ne_of_gt hwidth hb
    | outOfRange range => exact Nat.not_lt_of_le hstop hb.2
    | invalidSpecial => exact special_rule_iff.1 hspecial hb
    | physicalLocal => exact hlocal hb
  · intro h
    refine ⟨Nat.one_le_iff_ne_zero.2 (h .zeroWidth), ?_, special_rule_iff.2 (h .invalidSpecial),
      h .physicalLocal⟩
    exact Nat.le_of_not_lt fun hlt => h (.outOfRange r.range) ⟨rfl, hlt⟩

/-- The rules are tried one by one. -/
theorem fault?_eq_ite (r : Register) : r.fault? =
    if r.Breaks .zeroWidth then some .zeroWidth
    else if r.Breaks (.outOfRange r.range) then some (.outOfRange r.range)
    else if r.Breaks .invalidSpecial then some .invalidSpecial
    else if r.Breaks .physicalLocal then some .physicalLocal
    else none := by
  have hwidth : r.range.width = 0 ↔ r.Breaks .zeroWidth := UInt8.toNat_inj.symm
  have hstop : 64 < r.range.stop ↔ r.Breaks (.outOfRange r.range) := by
    rw [BitRange.stop, Nat.add_comm]
    exact (and_iff_right rfl).symm
  have hspecial : (r.isSpecial && (r.isVolatile || r.isReadOnly || r.isVirtual)) = true ↔
      r.Breaks .invalidSpecial := special_check_iff
  have hlocal : (r.isPhysical && r.isBlockLocal) = true ↔ r.Breaks .physicalLocal :=
    local_check_iff
  simp only [fault?, hwidth, hstop, hspecial, hlocal]

theorem breaksFirst_of_fault? (h : r.fault? = some fault) : r.BreaksFirst fault := by
  rw [fault?_eq_ite] at h
  split_ifs at h with hwidth hstop hspecial hlocal
  · cases h
    exact ⟨hwidth, fun other _ => Nat.zero_le _⟩
  · cases h
    refine ⟨hstop, fun other ho => ?_⟩
    cases other with
    | zeroWidth => exact absurd ho hwidth
    | _ => simp [Fault.rank]
  · cases h
    refine ⟨hspecial, fun other ho => ?_⟩
    cases other with
    | zeroWidth => exact absurd ho hwidth
    | outOfRange range => exact absurd ⟨rfl, ho.2⟩ hstop
    | _ => simp [Fault.rank]
  · cases h
    refine ⟨hlocal, fun other ho => ?_⟩
    cases other with
    | zeroWidth => exact absurd ho hwidth
    | outOfRange range => exact absurd ⟨rfl, ho.2⟩ hstop
    | invalidSpecial => exact absurd ho hspecial
    | physicalLocal => exact Nat.le_refl _

/-- The fault that is found is that of the first broken rule. -/
theorem fault?_eq_some_iff : r.fault? = some fault ↔ r.BreaksFirst fault := by
  refine ⟨breaksFirst_of_fault?, fun hf => ?_⟩
  -- some fault is found, as a rule is broken, and only one rule is the first
  cases h : r.fault? with
  | none => exact absurd hf.1 (valid_iff_forall_not_breaks.1 (fault?_eq_none_iff.1 h) fault)
  | some found => rw [(breaksFirst_of_fault? h).unique hf]

/-! ### Making registers -/

/-- A declaration aborts where a creation fails, and for the same fault. -/
theorem declare_eq_error_iff {abort : Abort} :
    declare slot range = .error abort ↔ create slot range = .error abort.fault := by
  unfold declare
  cases create slot range with
  | ok s => exact ⟨nofun, nofun⟩
  | error found =>
    constructor
    · intro h
      cases h
      rfl
    · intro h
      cases h
      rfl

/-- The special registers belong to the machine, outlive every block, and hold what was written
to them. -/
theorem Valid.of_special (h : r.Valid) (hs : r.isStatusFlags ∨ r.isStackPointer) :
    r.isPhysical ∧ r.isGlobal ∧ ¬ r.isVolatile ∧ ¬ r.isReadOnly := by
  simp only [isStatusFlags, isStackPointer, decide_eq_true_eq] at hs
  obtain ⟨hp, hv, hr⟩ := h.special hs
  have hl := h.physical_global hp
  simp [isPhysical, isGlobal, isBlockLocal, isVolatile, isReadOnly, hp, hv, hr, hl]

/-- **A slot and a range make a register exactly when no rule forbids it**, and it has that slot
and that range; if not, the first broken rule is reported. A declaration gives the same registers,
and it aborts where a rule is broken; of a whole slot it is one of all 64 bits. All registers that
can be made are valid, the special ones among them as the machine needs them. -/
theorem create_ok_or_first_fault (slot : Slot) (range : BitRange) :
    (∀ r, create slot range = .ok r ↔
      r = ⟨slot, range⟩ ∧
      1 ≤ range.width.toNat ∧ range.width.toNat + range.offset.toNat ≤ 64 ∧
      (.statusFlags ∈ slot.flags ∨ .stackPointer ∈ slot.flags →
        .physical ∈ slot.flags ∧ .volatile ∉ slot.flags ∧ .readOnly ∉ slot.flags) ∧
      ¬ (.physical ∈ slot.flags ∧ .blockLocal ∈ slot.flags)) ∧
    (∀ fault, create slot range = .error fault ↔ (⟨slot, range⟩ : Register).BreaksFirst fault) ∧
    (∀ r, declare slot range = .ok r ↔ create slot range = .ok r) ∧
    (∀ fault, declare slot range = .error ⟨fault⟩ ↔ create slot range = .error fault) ∧
    (∀ r, declareWhole slot = .ok r ↔ create slot ⟨64, 0⟩ = .ok r) ∧
    (∀ fault, declareWhole slot = .error ⟨fault⟩ ↔ create slot ⟨64, 0⟩ = .error fault) ∧
    ∀ r : Register, r.Made → r.isValid ∧
      (r.isStatusFlags ∨ r.isStackPointer →
        r.isPhysical ∧ r.isGlobal ∧ ¬ r.isVolatile ∧ ¬ r.isReadOnly) := by
  refine ⟨fun r => ?_, fun fault => ?_, fun r => declare_eq_ok_iff,
    fun fault => declare_eq_error_iff, fun r => declare_eq_ok_iff,
    fun fault => declare_eq_error_iff, fun r hr => ⟨isValid_iff.2 hr.valid, hr.valid.of_special⟩⟩
  · rw [create_eq_ok_iff, valid_iff_rules]
    refine and_congr_right fun hr => ?_
    rw [hr]
  · rw [create_eq_error_iff, fault?_eq_some_iff]

/-- The sum of the two bytes is 44 in a byte, but the range is too long; that is reported before
the flags, which break every other rule. The lower half of the stack pointer breaks none, selected
or declared, and its whole slot can be declared as well. -/
theorem create_past_slot_and_stackPointer_half :
    (create ⟨7, ⟨0xff⟩⟩ ⟨200, 100⟩ = .error (.outOfRange ⟨200, 100⟩) ∧
      declare ⟨7, ⟨0xff⟩⟩ ⟨200, 100⟩ = .error ⟨.outOfRange ⟨200, 100⟩⟩) ∧
    (∃ r, stackPointer.select ⟨32, 0⟩ = .ok r ∧ declare stackPointer.slot ⟨32, 0⟩ = .ok r ∧
      r.Made ∧ r.isValid ∧ r.isStackPointer ∧ r.isPhysical ∧ r.isGlobal ∧ ¬ r.isVolatile ∧
      ¬ r.isReadOnly) ∧
    declareWhole stackPointer.slot = .ok stackPointer := by
  obtain ⟨-, herr, -, habort, -⟩ := create_ok_or_first_fault ⟨7, ⟨0xff⟩⟩ ⟨200, 100⟩
  have hfault : create ⟨7, ⟨0xff⟩⟩ ⟨200, 100⟩ = .error (.outOfRange ⟨200, 100⟩) := by
    refine (herr _).2 ⟨by decide, fun other ho => ?_⟩
    cases other with
    | zeroWidth => exact absurd ho (by decide)
    | _ => simp [Fault.rank]
  obtain ⟨hok, -, hdeclare, -, hwhole, -, hmade⟩ :=
    create_ok_or_first_fault stackPointer.slot ⟨32, 0⟩
  have hhalf : stackPointer.select ⟨32, 0⟩ = .ok ⟨stackPointer.slot, ⟨32, 0⟩⟩ :=
    (hok _).2 ⟨rfl, by decide⟩
  obtain ⟨hvalid, hspecial⟩ := hmade _ (.select .stackPointer hhalf)
  have hslot : create stackPointer.slot ⟨64, 0⟩ = .ok stackPointer :=
    create_eq_ok_iff.2 ⟨rfl, valid_stackPointer⟩
  exact ⟨⟨hfault, (habort _).2 hfault⟩, ⟨_, hhalf, (hdeclare _).2 hhalf,
    .select .stackPointer hhalf, hvalid, by decide, hspecial (by decide)⟩, (hwhole _).2 hslot⟩

end Register

end VirtualIsa
