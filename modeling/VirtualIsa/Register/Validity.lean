import VirtualIsa.Register.Basic

/-!
# Valid registers

Which registers there are, and what is wrong with the others.

* `Register.Valid`: the range names some bits and none past bit 63; the status flags
  register and the stack pointer are physical, writable and not volatile; a physical
  register is not local to a block;
* `Fault` and `Register.fault?`, the first rule that a register breaks. Main statement:
  `Register.fault?_eq_none_iff`, there is no fault exactly when the register is valid;
* the ways to make a register: `Register.create` reports a fault, `Register.declare`
  aborts on it, `Register.select` takes another range of the same slot;
* the two special registers of the machine.
-/

namespace VirtualIsa

/-- What is wrong with a register. -/
inductive Fault where
  | zeroWidth
  | outOfRange (range : BitRange)
  | invalidSpecial
  | physicalLocal
  deriving DecidableEq

namespace Fault

/-- The text of a fault where values cannot be shown. -/
def brief : Fault → String
  | zeroWidth => "register must span at least one bit"
  | outOfRange _ => "register range exceeds 64 bits"
  | invalidSpecial =>
    "flags and stack pointer registers must be physical, writable and non-volatile"
  | physicalLocal => "physical registers cannot be block-local"

/-- The full text of a fault: it shows a range that is too long. -/
def message : Fault → String
  | outOfRange range =>
    "register range " ++ toString range.offset ++ "+" ++ toString range.width ++
      " exceeds 64 bits"
  | fault => fault.brief

end Fault

/-- The end of a program whose declarations contain a faulty register. -/
structure Abort where
  fault : Fault
  deriving DecidableEq

/-- The text with which a program aborts. -/
def Abort.message (a : Abort) : String := a.fault.brief

namespace Register

/-- The register is the status flags register or the stack pointer. -/
def isSpecial (r : Register) : Bool := r.isStatusFlags || r.isStackPointer

/-- The rules for registers. -/
structure Valid (r : Register) : Prop where
  fits : r.range.Fits
  special : .statusFlags ∈ r.slot.flags ∨ .stackPointer ∈ r.slot.flags →
    .physical ∈ r.slot.flags ∧ .volatile ∉ r.slot.flags ∧ .readOnly ∉ r.slot.flags
  physical_global : .physical ∈ r.slot.flags → .blockLocal ∉ r.slot.flags

/-- The first rule that a register breaks. -/
def fault? (r : Register) : Option Fault :=
  if r.range.width = 0 then some .zeroWidth
  else if 64 < r.range.stop then some (.outOfRange r.range)
  else if r.isSpecial && (r.isVolatile || r.isReadOnly || r.isVirtual) then some .invalidSpecial
  else if r.isPhysical && r.isBlockLocal then some .physicalLocal
  else none

theorem valid_iff {r : Register} : r.Valid ↔ r.range.Fits ∧
    (.statusFlags ∈ r.slot.flags ∨ .stackPointer ∈ r.slot.flags →
      .physical ∈ r.slot.flags ∧ .volatile ∉ r.slot.flags ∧ .readOnly ∉ r.slot.flags) ∧
    (.physical ∈ r.slot.flags → .blockLocal ∉ r.slot.flags) :=
  ⟨fun h => ⟨h.fits, h.special, h.physical_global⟩, fun ⟨h₁, h₂, h₃⟩ => ⟨h₁, h₂, h₃⟩⟩

/-- A special register breaks its rule when a flag is missing or one too many. -/
theorem special_rule_iff {flags : Flags} :
    (.statusFlags ∈ flags ∨ .stackPointer ∈ flags →
      .physical ∈ flags ∧ .volatile ∉ flags ∧ .readOnly ∉ flags) ↔
    ¬ ((.statusFlags ∈ flags ∨ .stackPointer ∈ flags) ∧
      (.physical ∉ flags ∨ .volatile ∈ flags ∨ .readOnly ∈ flags)) := by
  rw [not_and, not_or, not_or, Decidable.not_not]

/-- The check of special registers finds those that break their rule. -/
theorem special_check_iff {r : Register} :
    (r.isSpecial && (r.isVolatile || r.isReadOnly || r.isVirtual)) = true ↔
      (.statusFlags ∈ r.slot.flags ∨ .stackPointer ∈ r.slot.flags) ∧
        (.physical ∉ r.slot.flags ∨ .volatile ∈ r.slot.flags ∨ .readOnly ∈ r.slot.flags) := by
  simp [isSpecial, isStatusFlags, isStackPointer, isVolatile, isReadOnly, isVirtual, isPhysical,
    or_comm]

/-- The check of physical registers finds those that are local to a block. -/
theorem local_check_iff {r : Register} : (r.isPhysical && r.isBlockLocal) = true ↔
    .physical ∈ r.slot.flags ∧ .blockLocal ∈ r.slot.flags := by
  simp [isPhysical, isBlockLocal]

/-- The checks pass together exactly when no rule is broken. -/
theorem fault?_eq_none_iff {r : Register} : r.fault? = none ↔ r.Valid := by
  unfold fault?
  split
  next hwidth => exact iff_of_false nofun fun h => h.fits.1 hwidth
  next hwidth =>
    split
    next hstop => exact iff_of_false nofun fun h => Nat.not_lt_of_le h.fits.2 hstop
    next hstop =>
      split
      next hspecial =>
        have hbroken := special_check_iff.1 hspecial
        exact iff_of_false nofun fun h => special_rule_iff.1 h.special hbroken
      next hspecial =>
        split
        next hlocal =>
          obtain ⟨hp, hl⟩ := local_check_iff.1 hlocal
          exact iff_of_false nofun fun h => h.physical_global hp hl
        next hlocal =>
          exact iff_of_true rfl {
            fits := ⟨hwidth, Nat.le_of_not_lt hstop⟩
            special := special_rule_iff.2 (mt special_check_iff.2 hspecial)
            physical_global := fun hp hl => hlocal (local_check_iff.2 ⟨hp, hl⟩) }

instance (r : Register) : Decidable r.Valid := decidable_of_iff _ fault?_eq_none_iff

/-- The register breaks no rule. -/
def isValid (r : Register) : Bool := r.fault?.isNone

theorem isValid_iff {r : Register} : r.isValid ↔ r.Valid := by
  simp [isValid, fault?_eq_none_iff]

/-! ### Making registers -/

/-- The register of a slot and a range, or the first rule that it breaks. -/
def create (slot : Slot) (range : BitRange) : Except Fault Register :=
  match (⟨slot, range⟩ : Register).fault? with
  | none => .ok ⟨slot, range⟩
  | some fault => .error fault

/-- Another range of the register's slot. Offsets count from the start of the slot. -/
def select (r : Register) (range : BitRange) : Except Fault Register := create r.slot range

/-- A register that a program declares: a fault ends the program. -/
def declare (slot : Slot) (range : BitRange) : Except Abort Register :=
  (create slot range).mapError Abort.mk

/-- A declared register that is a whole slot. -/
def declareWhole (slot : Slot) : Except Abort Register := declare slot .whole

theorem create_eq_ok_iff {slot : Slot} {range : BitRange} {r : Register} :
    create slot range = .ok r ↔ r = ⟨slot, range⟩ ∧ r.Valid := by
  unfold create
  cases h : (⟨slot, range⟩ : Register).fault? with
  | none =>
    have hv := fault?_eq_none_iff.1 h
    refine ⟨fun he => ?_, fun ⟨he, _⟩ => by rw [he]⟩
    cases he
    exact ⟨rfl, hv⟩
  | some fault =>
    refine ⟨nofun, fun ⟨he, hv⟩ => ?_⟩
    rw [he, ← fault?_eq_none_iff, h] at hv
    exact nomatch hv

theorem create_eq_error_iff {slot : Slot} {range : BitRange} {fault : Fault} :
    create slot range = .error fault ↔ (⟨slot, range⟩ : Register).fault? = some fault := by
  unfold create
  cases (⟨slot, range⟩ : Register).fault? <;> simp

/-! ### The special registers -/

/-- The status flags register of the machine. -/
def statusFlags : Register := ⟨⟨0, .ofList [.physical, .statusFlags]⟩, .whole⟩

/-- The stack pointer of the machine. -/
def stackPointer : Register := ⟨⟨0, .ofList [.physical, .stackPointer]⟩, .whole⟩

theorem valid_statusFlags : statusFlags.Valid := by decide

theorem valid_stackPointer : stackPointer.Valid := by decide

end Register

end VirtualIsa
