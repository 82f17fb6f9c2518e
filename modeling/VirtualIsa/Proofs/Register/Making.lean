import VirtualIsa.Register.Validity

/-!
# The registers that a program can make

Registers are plain data, but a program gets one only through a check or as one of the two
constants.

* `Register.Made`: the registers that are created, declared, selected from made ones, or
  special. Main statement: `Register.made_iff_valid`, these are exactly the valid registers.
-/

namespace VirtualIsa

namespace Register

variable {slot : Slot} {range : BitRange} {r : Register}

/-- A declaration succeeds where a creation does. -/
theorem declare_eq_ok_iff : declare slot range = .ok r ↔ create slot range = .ok r := by
  unfold declare
  cases create slot range with
  | ok s =>
    constructor
    · intro h
      cases h
      rfl
    · intro h
      cases h
      rfl
  | error fault => exact ⟨nofun, nofun⟩

/-- The registers that a program can make. -/
inductive Made : Register → Prop
  | create {slot : Slot} {range : BitRange} {r : Register} (h : create slot range = .ok r) : Made r
  | declare {slot : Slot} {range : BitRange} {r : Register} (h : declare slot range = .ok r) :
    Made r
  | declareWhole {slot : Slot} {r : Register} (h : declareWhole slot = .ok r) : Made r
  | select {r s : Register} {range : BitRange} (hr : Made r) (h : r.select range = .ok s) : Made s
  | statusFlags : Made statusFlags
  | stackPointer : Made stackPointer

theorem Made.valid (h : r.Made) : r.Valid := by
  cases h with
  | create h => exact (create_eq_ok_iff.1 h).2
  | declare h => exact (create_eq_ok_iff.1 (declare_eq_ok_iff.1 h)).2
  | declareWhole h => exact (create_eq_ok_iff.1 (declare_eq_ok_iff.1 h)).2
  | select hr h => exact (create_eq_ok_iff.1 h).2
  | statusFlags => exact valid_statusFlags
  | stackPointer => exact valid_stackPointer

/-- A program can make exactly the valid registers. -/
theorem made_iff_valid : r.Made ↔ r.Valid :=
  ⟨Made.valid, fun h => .create (create_eq_ok_iff.2 ⟨rfl, h⟩)⟩

end Register

end VirtualIsa
