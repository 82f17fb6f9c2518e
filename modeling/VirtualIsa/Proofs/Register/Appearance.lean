import VirtualIsa.Proofs.Text
import VirtualIsa.Register.Naming
import VirtualIsa.Register.Validity

/-!
# What the text of a register shows

Under the numbered naming a register is written as its marks, the stem of its kind, its number and
its suffix. Each piece can be told from the next: the marks are no letters, no stem begins another
one, and a suffix does not begin with a digit.

* `Register.Kind.stem` and `Register.toList_toString`, the pieces of the text;
* `Register.Valid.flags_agree_iff`: the kind and the marks tell the flags, but for the stack pointer
  flag of a status flags register. Main statement: `Register.toString_eq_iff_alike`, which registers
  have one text, and what of them the text hides.
-/

namespace VirtualIsa

theorem BitRange.Fits.endsRun_suffix {r : BitRange} (h : r.Fits) :
    EndsRun Char.isDigit r.suffix.toList := by
  rw [suffix_of_fits h]
  split <;> simp [EndsRun]

/-- The suffix tells the width. -/
theorem BitRange.Fits.suffix_inj {r s : BitRange} (hr : r.Fits) (hs : s.Fits) :
    r.suffix = s.suffix ↔ r.width = s.width := by
  rw [suffix_of_fits hr, suffix_of_fits hs]
  constructor
  · intro h
    split_ifs at h with hr64 hs64 hs64
    · rw [hr64, hs64]
    · simpa using congrArg String.toList h
    · simpa using congrArg String.toList h
    · have hn : Nat.toDigits 10 r.width.toNat = Nat.toDigits 10 s.width.toNat := by
        simpa using congrArg String.toList h
      exact UInt8.toNat_inj.1 (toDigits_inj.1 hn)
  · intro h
    rw [h]

namespace Register

/-! ### The pieces of the text -/

namespace Kind

variable {k l : Kind} {rest rest' : List Char}

/-- The beginning of the names of a kind. -/
def stem : Kind → List Char
  | .statusFlags => ['$', 'f', 'l', 'a', 'g', 's']
  | .stackPointer => ['$', 's', 'p']
  | .temporary => ['t']
  | .bank .physical => ['r']
  | .bank .virtual => ['v', 'r']

/-- The registers of the kind are numbered; of the others the machine has one each. -/
def isNumbered : Kind → Bool
  | .statusFlags | .stackPointer => false
  | _ => true

/-- No stem begins another one. -/
theorem stem_append_inj : k.stem ++ rest = l.stem ++ rest' ↔ k = l ∧ rest = rest' := by
  rcases k with _ | _ | _ | (_ | _) <;> rcases l with _ | _ | _ | (_ | _) <;> simp [stem]

end Kind

variable {a b r : Register} {rest rest' : List Char}

/-- The character marks a property of the register. -/
def isMark (c : Char) : Bool := c = '?' || c = '&'

theorem endsRun_stem (k : Kind) : EndsRun isMark (k.stem ++ rest) := by
  rcases k with _ | _ | _ | (_ | _) <;> simp [Kind.stem, isMark]

theorem isMark_of_mem_marks (r : Register) : ∀ c ∈ r.marks.toList, isMark c := by
  unfold marks
  split <;> split <;> simp [isMark]

theorem marks_inj : a.marks = b.marks ↔
    a.isVolatile = b.isVolatile ∧ a.isReadOnly = b.isReadOnly := by
  unfold marks
  cases a.isVolatile <;> cases b.isVolatile <;> cases a.isReadOnly <;> cases b.isReadOnly <;> decide

/-- The number in the name of a register. -/
def number (r : Register) : List Char :=
  if r.kind.isNumbered then Nat.toDigits 10 r.slot.id.toNat else []

/-- A register is written as its marks, the stem of its kind, its number and its suffix. -/
theorem toList_toString (r : Register) : (toString r).toList =
    r.marks.toList ++ (r.kind.stem ++ (r.number ++ r.range.suffix.toList)) := by
  have hbody : (r.body .numbered).toList = r.kind.stem ++ (r.number ++ r.range.suffix.toList) := by
    unfold body number
    rcases r.kind with _ | _ | _ | (_ | _) <;>
      simp [Kind.stem, Kind.isNumbered, Naming.numbered, query]
  rw [← hbody, ← String.toList_append]
  rfl

theorem number_append_inj (hkind : a.kind = b.kind) (h : EndsRun Char.isDigit rest)
    (h' : EndsRun Char.isDigit rest') : a.number ++ rest = b.number ++ rest' ↔
      (a.kind.isNumbered → a.slot.id = b.slot.id) ∧ rest = rest' := by
  unfold number
  rw [← hkind]
  cases a.kind.isNumbered with
  | true => simp [digits_append_inj h h', UInt64.toNat_inj]
  | false => simp

/-- The pieces of the text can be told apart. -/
theorem Valid.toString_eq_iff (ha : a.Valid) (hb : b.Valid) : toString a = toString b ↔
    (a.isVolatile = b.isVolatile ∧ a.isReadOnly = b.isReadOnly) ∧ a.kind = b.kind ∧
      (a.kind.isNumbered → a.slot.id = b.slot.id) ∧ a.range.width = b.range.width := by
  rw [← String.toList_inj, toList_toString, toList_toString,
    run_append_inj a.isMark_of_mem_marks b.isMark_of_mem_marks (endsRun_stem _) (endsRun_stem _),
    String.toList_inj, marks_inj, Kind.stem_append_inj]
  refine and_congr_right fun _ => and_congr_right fun hkind => ?_
  rw [number_append_inj hkind ha.fits.endsRun_suffix hb.fits.endsRun_suffix, String.toList_inj,
    ha.fits.suffix_inj hb.fits]

/-! ### What the text hides -/

theorem kind_eq_statusFlags_iff : r.kind = .statusFlags ↔ .statusFlags ∈ r.slot.flags := by
  unfold kind
  split_ifs <;> simp_all [isStatusFlags]

theorem kind_eq_stackPointer_iff :
    r.kind = .stackPointer ↔ .statusFlags ∉ r.slot.flags ∧ .stackPointer ∈ r.slot.flags := by
  unfold kind
  split_ifs <;> simp_all [isStatusFlags, isStackPointer]

/-- The special registers are physical, and so not local to a block. -/
theorem Valid.kind_eq_temporary_iff (h : r.Valid) :
    r.kind = .temporary ↔ .blockLocal ∈ r.slot.flags := by
  have hspecial := h.special
  have hglobal := h.physical_global
  unfold kind
  split_ifs <;> simp_all [isStatusFlags, isStackPointer, isBlockLocal]

theorem Valid.physical_mem_iff (h : r.Valid) :
    .physical ∈ r.slot.flags ↔ r.kind ≠ .temporary ∧ r.kind ≠ .bank .virtual := by
  have hspecial := h.special
  have hglobal := h.physical_global
  unfold kind
  split_ifs <;> simp_all [isStatusFlags, isStackPointer, isBlockLocal, isPhysical]

theorem isNumbered_kind_iff : r.kind.isNumbered ↔ ¬ r.isSpecial := by
  unfold kind isSpecial
  split_ifs <;> simp_all [Kind.isNumbered]

/-- Registers whose flags agree, but for the stack pointer flag of a status flags register, are of
one kind. -/
theorem kind_eq_of_flags (h : ∀ f, ¬ (f = .stackPointer ∧ .statusFlags ∈ a.slot.flags) →
    (f ∈ a.slot.flags ↔ f ∈ b.slot.flags)) : a.kind = b.kind := by
  have hsf := h .statusFlags (by simp)
  by_cases ha : .statusFlags ∈ a.slot.flags
  · rw [kind_eq_statusFlags_iff.2 ha, kind_eq_statusFlags_iff.2 (hsf.1 ha)]
  · have hall (f : Flag) : f ∈ a.slot.flags ↔ f ∈ b.slot.flags := h f fun hf => ha hf.2
    simp [kind, isStatusFlags, isStackPointer, isBlockLocal, isPhysical, hall]

/-- Kind and marks tell the flags of a valid register, but for the stack pointer flag of a status
flags register. -/
theorem Valid.flags_agree_iff (ha : a.Valid) (hb : b.Valid) :
    (∀ f, ¬ (f = .stackPointer ∧ .statusFlags ∈ a.slot.flags) →
      (f ∈ a.slot.flags ↔ f ∈ b.slot.flags)) ↔
    a.isVolatile = b.isVolatile ∧ a.isReadOnly = b.isReadOnly ∧ a.kind = b.kind := by
  constructor
  · intro h
    refine ⟨?_, ?_, kind_eq_of_flags h⟩
    · simp only [isVolatile, h .volatile (by simp)]
    · simp only [isReadOnly, h .readOnly (by simp)]
  · rintro ⟨hvolatile, hreadOnly, hkind⟩ f hf
    cases f with
    | physical => rw [ha.physical_mem_iff, hb.physical_mem_iff, hkind]
    | blockLocal => rw [← ha.kind_eq_temporary_iff, ← hb.kind_eq_temporary_iff, hkind]
    | statusFlags => rw [← kind_eq_statusFlags_iff, ← kind_eq_statusFlags_iff, hkind]
    | stackPointer =>
      have hsfa : .statusFlags ∉ a.slot.flags := fun hsf => hf ⟨rfl, hsf⟩
      have hsfb : .statusFlags ∉ b.slot.flags := by
        rwa [← kind_eq_statusFlags_iff, hkind, kind_eq_statusFlags_iff] at hsfa
      rw [← and_iff_right (b := _ ∈ a.slot.flags) hsfa, ← kind_eq_stackPointer_iff, hkind,
        kind_eq_stackPointer_iff, and_iff_right hsfb]
    | volatile => simpa [isVolatile] using hvolatile
    | readOnly => simpa [isReadOnly] using hreadOnly

/-- **Two registers have one text exactly when they agree in marks, width and kind**, and in their
number if they are no special registers. So the text shows the width, every named flag but the
stack pointer flag of a status flags register, and the id of a register that is not special; it
hides the offset, the unnamed flags, that one flag, and the id of a special register. -/
theorem toString_eq_iff_alike {a b : Register} (ha : a.Valid) (hb : b.Valid) :
    (toString a = toString b ↔
      a.isVolatile = b.isVolatile ∧ a.isReadOnly = b.isReadOnly ∧ a.range.width = b.range.width ∧
      a.kind = b.kind ∧
      (a.kind ≠ .statusFlags ∧ a.kind ≠ .stackPointer → a.slot.id = b.slot.id)) ∧
    (toString a = toString b ↔
      a.range.width = b.range.width ∧
      (∀ f, ¬ (f = .stackPointer ∧ .statusFlags ∈ a.slot.flags) →
        (f ∈ a.slot.flags ↔ f ∈ b.slot.flags)) ∧
      (¬ a.isSpecial → a.slot.id = b.slot.id)) := by
  have hnumbered : a.kind.isNumbered ↔ a.kind ≠ .statusFlags ∧ a.kind ≠ .stackPointer := by
    cases a.kind <;> simp [Kind.isNumbered]
  rw [← hnumbered, ← isNumbered_kind_iff, ha.flags_agree_iff hb, ha.toString_eq_iff hb]
  constructor
  · constructor
    · rintro ⟨⟨hvolatile, hreadOnly⟩, hkind, hid, hwidth⟩
      exact ⟨hvolatile, hreadOnly, hwidth, hkind, hid⟩
    · rintro ⟨hvolatile, hreadOnly, hwidth, hkind, hid⟩
      exact ⟨⟨hvolatile, hreadOnly⟩, hkind, hid, hwidth⟩
  · constructor
    · rintro ⟨⟨hvolatile, hreadOnly⟩, hkind, hid, hwidth⟩
      exact ⟨hwidth, ⟨hvolatile, hreadOnly, hkind⟩, hid⟩
    · rintro ⟨hwidth, ⟨hvolatile, hreadOnly, hkind⟩, hid⟩
      exact ⟨⟨hvolatile, hreadOnly⟩, hkind, hid, hwidth⟩

/-- The two lowest bytes of a volatile register with different unnamed flags are written alike, and
so are status flags registers with different ids; a width is not taken for a digit of an id. -/
theorem toString_of_bytes_flags_and_widths :
    (∃ a b : Register, a = ⟨⟨3, ⟨0x51⟩⟩, ⟨8, 8⟩⟩ ∧ b = ⟨⟨3, ⟨0x91⟩⟩, ⟨8, 0⟩⟩ ∧
      a.Valid ∧ b.Valid ∧ toString a = toString b) ∧
    (∃ a b : Register, a = ⟨⟨0, ⟨0x05⟩⟩, .whole⟩ ∧ b = ⟨⟨9, ⟨0x0d⟩⟩, .whole⟩ ∧
      a.Valid ∧ b.Valid ∧ toString a = toString b) ∧
    ∃ a b : Register, a = ⟨⟨1, ⟨0⟩⟩, ⟨8, 0⟩⟩ ∧ b = ⟨⟨18, ⟨0⟩⟩, .whole⟩ ∧
      a.Valid ∧ b.Valid ∧ toString a ≠ toString b := by
  refine ⟨⟨_, _, rfl, rfl, by decide, by decide, ?_⟩, ⟨_, _, rfl, rfl, by decide, by decide, ?_⟩,
    _, _, rfl, rfl, by decide, by decide, fun h => ?_⟩
  · exact (toString_eq_iff_alike (by decide) (by decide)).1.2 (by decide)
  · exact (toString_eq_iff_alike (by decide) (by decide)).1.2 (by decide)
  · exact absurd ((toString_eq_iff_alike (by decide) (by decide)).1.1 h) (by decide)

end Register

end VirtualIsa
