import Mathlib.Tactic.SplitIfs
import VirtualIsa.Register.Naming
import VirtualIsa.Register.Validity

/-!
# What a naming decides

The name of a plain register, one that is no special register and no temporary, is left to a naming.
All that a naming decides is the answer to one question, and a register that is not plain asks none.
Whoever names the register, its marks and its suffix are the same.

* `Register.IsPlain` and `Register.kind_of_isPlain`, the registers that ask, and their banks;
* `Register.render_of_not_isPlain` and `Register.render_of_isPlain`, the texts of the others and of
  these;
* `BitRange.Fits.suffix_eq_empty_iff` and `BitRange.Fits.suffix_ne_at`: the suffix of a range that
  fits the slot shows a width or nothing. Main statement: `Register.render_asks_one_question`.
-/

namespace VirtualIsa

namespace BitRange

variable {r : BitRange}

theorem Fits.suffix_eq_empty_iff (h : r.Fits) : r.suffix = "" ↔ r.width = 64 := by
  rw [suffix_of_fits h]
  split_ifs with hwidth <;> simp [hwidth]

theorem Fits.suffix_of_width_ne (h : r.Fits) (hwidth : r.width ≠ 64) :
    r.suffix = ":" ++ toString r.width.toNat := by
  rw [suffix_of_fits h, if_neg hwidth]

/-- No suffix shows an offset, as a range with an offset does not have the width of the slot. -/
theorem Fits.suffix_ne_at (h : r.Fits) (text : String) : r.suffix ≠ "@" ++ text := by
  intro hat
  have hhead := congrArg (·.toList.head?) hat
  rw [suffix_of_fits h] at hhead
  split_ifs at hhead <;> simp at hhead

end BitRange

namespace Register

variable {r : Register} {n n₁ n₂ : Naming}

/-- The name of the register is left to a naming. -/
def IsPlain (r : Register) : Prop := ¬ (r.isStatusFlags ∨ r.isStackPointer ∨ r.isBlockLocal)

/-- The name of a register that is not plain. -/
def fixedName (r : Register) : String :=
  if r.isStatusFlags then "$flags"
  else if r.isStackPointer then "$sp"
  else "t" ++ toString r.slot.id.toNat

/-- The bank of a plain register. -/
def bank (r : Register) : Bank := if r.isPhysical then .physical else .virtual

theorem bank_eq_physical_iff : r.bank = .physical ↔ r.isPhysical := by
  unfold bank
  split_ifs with h <;> simp [h]

theorem kind_of_isPlain (h : r.IsPlain) : r.kind = .bank r.bank := by
  unfold IsPlain at h
  unfold kind bank
  split_ifs <;> simp_all

/-- A register that is not plain asks nothing. -/
theorem render_of_not_isPlain (h : ¬ r.IsPlain) (n : Naming) :
    r.render n = r.marks ++ (r.fixedName ++ r.range.suffix) := by
  unfold IsPlain at h
  unfold render body kind fixedName
  split_ifs <;> simp_all

/-- A register of a bank is written as its marks and the answer to its question. -/
theorem render_of_kind_eq_bank {b : Bank} (h : r.kind = .bank b) (n : Naming) :
    r.render n = r.marks ++ n (r.query b) := by
  rw [render, body, h]

theorem render_of_isPlain (h : r.IsPlain) (n : Naming) :
    r.render n = r.marks ++ n (r.query r.bank) :=
  render_of_kind_eq_bank (kind_of_isPlain h) n

/-- Two namings write a plain register alike exactly when they answer its question alike. -/
theorem render_eq_render_iff (h : r.IsPlain) :
    r.render n₁ = r.render n₂ ↔ n₁ (r.query r.bank) = n₂ (r.query r.bank) := by
  rw [render_of_isPlain h, render_of_isPlain h, String.append_right_inj]

/-- **A naming is asked one question at most, and decides nothing else.** The status flags register,
the stack pointer and temporaries are written alike under all namings. Of any other register the
naming is asked for its bank, id, range and suffix, and the answer stands behind the marks as it is.
The suffix is the width, if that is not the one of the slot, and never an offset. -/
theorem render_asks_one_question {r : Register} (h : r.Valid) :
    (r.isStatusFlags ∨ r.isStackPointer ∨ r.isBlockLocal →
      (∀ n₁ n₂, r.render n₁ = r.render n₂) ∧
      ∀ n, r.render n = r.marks ++ (r.fixedName ++ r.range.suffix)) ∧
    (¬ (r.isStatusFlags ∨ r.isStackPointer ∨ r.isBlockLocal) →
      ∃ q : Query, (q.bank = .physical ↔ r.isPhysical) ∧ q.id = r.slot.id ∧ q.range = r.range ∧
        q.suffix = r.range.suffix ∧ (∀ n, r.render n = r.marks ++ n q) ∧
        ∀ n₁ n₂, r.render n₁ = r.render n₂ ↔ n₁ q = n₂ q) ∧
    r.marks = (if r.isVolatile then "?" else "") ++ (if r.isReadOnly then "&&" else "") ∧
    (r.range.suffix = "" ↔ r.range.width = 64) ∧
    (r.range.width ≠ 64 → r.range.suffix = ":" ++ toString r.range.width.toNat) ∧
    ∀ text, r.range.suffix ≠ "@" ++ text := by
  refine ⟨fun hfixed => ⟨fun n₁ n₂ => ?_, ?_⟩, fun hplain => ?_, rfl, h.fits.suffix_eq_empty_iff,
    h.fits.suffix_of_width_ne, h.fits.suffix_ne_at⟩
  · rw [render_of_not_isPlain (not_not_intro hfixed), render_of_not_isPlain (not_not_intro hfixed)]
  · exact render_of_not_isPlain (not_not_intro hfixed)
  · exact ⟨r.query r.bank, bank_eq_physical_iff, rfl, rfl, rfl, render_of_isPlain hplain,
      fun n₁ n₂ => render_eq_render_iff hplain⟩

/-- The upper half of a volatile, read-only physical register is named by the answer to its
question, to which its offset belongs although its suffix does not show it; a temporary is not asked
for. -/
theorem render_of_upper_half_and_temporary :
    (∃ r : Register, r = ⟨⟨9, .ofList [.physical, .volatile, .readOnly]⟩, ⟨32, 32⟩⟩ ∧ r.Valid ∧
      r.render (fun q => if q = ⟨.physical, 9, ⟨32, 32⟩, ":32"⟩ then "high" else "other") =
        "?&&high" ∧
      r.range.suffix = ":32") ∧
    ∃ r : Register, r = ⟨⟨9, .ofList [.blockLocal, .readOnly]⟩, ⟨64, 0⟩⟩ ∧ r.Valid ∧
      r.range.suffix = "" ∧ ∀ n, r.render n = "&&t9" := by
  obtain ⟨-, hplain, -, -, hsuffix, -⟩ :=
    render_asks_one_question (r := ⟨⟨9, .ofList [.physical, .volatile, .readOnly]⟩, ⟨32, 32⟩⟩)
      (by decide)
  obtain ⟨hfixed, -, -, hempty, -⟩ :=
    render_asks_one_question (r := ⟨⟨9, .ofList [.blockLocal, .readOnly]⟩, ⟨64, 0⟩⟩) (by decide)
  have htemporary := (hfixed (by decide)).2
  refine ⟨⟨_, rfl, by decide, ?_, hsuffix (by decide)⟩, _, rfl, by decide, hempty.2 rfl,
    fun n => (htemporary n).trans (by decide)⟩
  obtain ⟨⟨bank, id, range, suffix⟩, hbank, rfl, rfl, rfl, hrender, -⟩ := hplain (by decide)
  have hphysical : bank = .physical := hbank.2 (by decide)
  rw [hrender, hphysical]
  decide

end Register

end VirtualIsa
