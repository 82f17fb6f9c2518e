import VirtualIsa.Register.Basic

/-!
# Names of registers

A register is written as its marks, a name and a suffix for its range. The status flags
register, the stack pointer and the temporaries of a block have fixed names; the name of
any other register is left to a `Naming`.

* `Query`: all that a naming is told. It gets the suffix ready made, so that a naming
  with a word of its own for the range can leave it out;
* `Naming.numbered`: `r5` for physical and `vr5` for virtual registers;
* `Register.kind` and `Register.render`. Main statement: `Register.render_congr`,
  a register is written alike under namings that answer its own query alike.
-/

namespace VirtualIsa

/-- The two classes of registers whose names are free. -/
inductive Bank where
  | physical
  | virtual
  deriving DecidableEq

/-- A question for the name of a register. -/
structure Query where
  bank : Bank
  id : UInt64
  range : BitRange
  suffix : String
  deriving DecidableEq

/-- A way to name registers. -/
abbrev Naming := Query → String

/-- Registers are numbered within their bank. -/
def Naming.numbered : Naming := fun q =>
  match q.bank with
  | .physical => "r" ++ toString q.id.toNat ++ q.suffix
  | .virtual => "vr" ++ toString q.id.toNat ++ q.suffix

/-- The mark of a range behind a name: its width if that is not 64, else its offset if that
is not 0. -/
def BitRange.suffix (r : BitRange) : String :=
  if r.width ≠ 64 then ":" ++ toString r.width.toNat
  else if r.offset ≠ 0 then "@" ++ toString r.offset.toNat
  else ""

/-- A range that fits its slot is marked by its width alone. -/
theorem BitRange.suffix_of_fits {r : BitRange} (h : r.Fits) :
    r.suffix = if r.width = 64 then "" else ":" ++ toString r.width.toNat := by
  unfold suffix
  by_cases hw : r.width = 64
  · have hs := h.2
    have ho : r.offset = 0 := by
      rw [BitRange.stop, hw, show (64 : UInt8).toNat = 64 from rfl] at hs
      exact UInt8.toNat_inj.1 (show r.offset.toNat = 0 by omega)
    simp [hw, ho]
  · simp [hw]

namespace Register

/-- What a register is called by. -/
inductive Kind where
  | statusFlags
  | stackPointer
  | temporary
  | bank (b : Bank)
  deriving DecidableEq

/-- The kind of a register: the special registers first, then temporaries. -/
def kind (r : Register) : Kind :=
  if r.isStatusFlags then .statusFlags
  else if r.isStackPointer then .stackPointer
  else if r.isBlockLocal then .temporary
  else if r.isPhysical then .bank .physical
  else .bank .virtual

/-- The marks before a name: a question mark if the register is volatile, and two ampersands
if it is read-only. -/
def marks (r : Register) : String :=
  (if r.isVolatile then "?" else "") ++ (if r.isReadOnly then "&&" else "")

/-- The question that a register of bank `b` puts to a naming. -/
def query (r : Register) (b : Bank) : Query := ⟨b, r.slot.id, r.range, r.range.suffix⟩

/-- The name of a register with its suffix. -/
def body (naming : Naming) (r : Register) : String :=
  match r.kind with
  | .statusFlags => "$flags" ++ r.range.suffix
  | .stackPointer => "$sp" ++ r.range.suffix
  | .temporary => "t" ++ toString r.slot.id.toNat ++ r.range.suffix
  | .bank b => naming (r.query b)

/-- The text of a register under a naming. -/
def render (naming : Naming) (r : Register) : String := r.marks ++ r.body naming

instance : ToString Register := ⟨render .numbered⟩

/-- A register is written alike under namings that answer its own query alike. -/
theorem render_congr {n₁ n₂ : Naming} {r : Register}
    (h : ∀ b, r.kind = .bank b → n₁ (r.query b) = n₂ (r.query b)) :
    r.render n₁ = r.render n₂ := by
  unfold render body
  cases hk : r.kind with
  | bank b => simp [h b hk]
  | _ => rfl

end Register

end VirtualIsa
