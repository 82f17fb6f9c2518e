import VirtualIsa.Proofs.Register.Appearance

/-!
# Registers that only look alike

Nothing asks for the unnamed bits of a set of flags but comparison. So there are registers that
break the same rules, give the same answers and are written alike under every naming, and are
nevertheless registers of different slots, which never share a bit.

* `Slot.Alike`: slots with one id and the same named flags;
* `Register.SameAnswers`, which registers of such slots give. Main statement:
  `Register.unnamed_flags_separate_lookalikes`.
-/

namespace VirtualIsa

namespace Flags

variable {s t : Flags} {f : Flag}

theorem not_mem_unnamed : f ∉ s.unnamed := by
  simp [unnamed]

/-- The sets of unnamed bits, other than the empty one. -/
theorem unnamed_eq_self_of_bits (h : s.bits = 64 ∨ s.bits = 128 ∨ s.bits = 192) :
    s.unnamed = s ∧ s ≠ ∅ := by
  obtain ⟨bits⟩ := s
  rcases h with rfl | rfl | rfl <;> decide

theorem mem_symmDiff_of_unnamed (h : t.unnamed = t) : f ∈ s.symmDiff t ↔ f ∈ s := by
  have hf : f ∉ t := h ▸ not_mem_unnamed
  simp [hf]

theorem symmDiff_ne_left (h : t ≠ ∅) : s.symmDiff t ≠ s := by
  intro he
  have hbits : s.bits ^^^ t.bits = s.bits := congrArg bits he
  exact h (Flags.ext ((UInt8.xor_right_inj s.bits).1 (hbits.trans UInt8.xor_zero.symm)))

end Flags

/-- The slots have one id and the same named flags. -/
structure Slot.Alike (s t : Slot) : Prop where
  id_eq : s.id = t.id
  mem_iff : ∀ f, f ∈ s.flags ↔ f ∈ t.flags

theorem Slot.alike_symmDiff {u : Flags} (h : u.unnamed = u) (id : UInt64) (flags : Flags) :
    Alike ⟨id, flags⟩ ⟨id, flags.symmDiff u⟩ :=
  ⟨rfl, fun _ => (Flags.mem_symmDiff_of_unnamed h).symm⟩

namespace Register

variable {s t : Slot} {a b v w : Register} {range : BitRange}

/-- Whatever is asked about the one register and about the other, the answers agree. -/
structure SameAnswers (a b : Register) : Prop where
  isPhysical : a.isPhysical = b.isPhysical
  isVirtual : a.isVirtual = b.isVirtual
  isBlockLocal : a.isBlockLocal = b.isBlockLocal
  isGlobal : a.isGlobal = b.isGlobal
  isStatusFlags : a.isStatusFlags = b.isStatusFlags
  isStackPointer : a.isStackPointer = b.isStackPointer
  isVolatile : a.isVolatile = b.isVolatile
  isReadOnly : a.isReadOnly = b.isReadOnly
  mask : a.mask = b.mask
  render : ∀ naming, a.render naming = b.render naming

/-! ### Registers of slots that look alike -/

theorem kind_of_alike (h : s.Alike t) (range : BitRange) :
    (⟨s, range⟩ : Register).kind = (⟨t, range⟩ : Register).kind :=
  kind_eq_of_flags fun f _ => h.mem_iff f

theorem marks_of_alike (h : s.Alike t) (range : BitRange) :
    (⟨s, range⟩ : Register).marks = (⟨t, range⟩ : Register).marks := by
  simp [marks, Register.isVolatile, Register.isReadOnly, h.mem_iff]

/-- They put the same question to a naming, or have the same fixed name. -/
theorem render_of_alike (h : s.Alike t) (range : BitRange) (naming : Naming) :
    (⟨s, range⟩ : Register).render naming = (⟨t, range⟩ : Register).render naming := by
  simp [Register.render, body, query, marks_of_alike h, kind_of_alike h, h.id_eq]

theorem sameAnswers_of_alike (h : s.Alike t) (range : BitRange) :
    SameAnswers ⟨s, range⟩ ⟨t, range⟩ where
  isPhysical := by simp [Register.isPhysical, h.mem_iff]
  isVirtual := by simp [Register.isVirtual, Register.isPhysical, h.mem_iff]
  isBlockLocal := by simp [Register.isBlockLocal, h.mem_iff]
  isGlobal := by simp [Register.isGlobal, Register.isBlockLocal, h.mem_iff]
  isStatusFlags := by simp [Register.isStatusFlags, h.mem_iff]
  isStackPointer := by simp [Register.isStackPointer, h.mem_iff]
  isVolatile := by simp [Register.isVolatile, h.mem_iff]
  isReadOnly := by simp [Register.isReadOnly, h.mem_iff]
  mask := rfl
  render := render_of_alike h range

/-- The rules look at named flags and the range. -/
theorem fault?_of_alike (h : s.Alike t) (range : BitRange) :
    (⟨s, range⟩ : Register).fault? = (⟨t, range⟩ : Register).fault? := by
  have hsame := sameAnswers_of_alike h range
  unfold fault? isSpecial
  rw [hsame.isStatusFlags, hsame.isStackPointer, hsame.isVolatile, hsame.isReadOnly,
    hsame.isVirtual, hsame.isPhysical, hsame.isBlockLocal]

/-- A range makes a register of either slot, or of neither and for the same fault. -/
theorem create_of_alike (h : s.Alike t) (range : BitRange) :
    (∃ fault, create s range = .error fault ∧ create t range = .error fault) ∨
    create s range = .ok ⟨s, range⟩ ∧ create t range = .ok ⟨t, range⟩ := by
  unfold create
  rw [fault?_of_alike h]
  cases (⟨t, range⟩ : Register).fault? with
  | none => exact .inr ⟨rfl, rfl⟩
  | some fault => exact .inl ⟨fault, rfl, rfl⟩

/-! ### Registers of different slots -/

theorem slot_of_select (h : a.select range = .ok v) : v.slot = a.slot := by
  rw [(create_eq_ok_iff.1 h).1]

/-- No range of one slot shares a bit with a range of another. -/
theorem not_overlaps_of_select {range' : BitRange} (h : a.slot ≠ b.slot)
    (hv : a.select range = .ok v) (hw : b.select range' = .ok w) : ¬ v.overlaps w := by
  intro hoverlap
  have hslot : v.slot = w.slot := (overlaps_iff.1 hoverlap).1
  rw [slot_of_select hv, slot_of_select hw] at hslot
  exact h hslot

/-- **The unnamed flags tell registers apart, and do nothing else.** Whether a slot and a range make
a register, and if not, what is reported, stays the same when unnamed bits are flipped. The two
registers give the same answers and are written alike under every naming; and yet they are
different, and no range of the one overlaps a range of the other. -/
theorem unnamed_flags_separate_lookalikes {u : Flags}
    (hu : u.bits = 64 ∨ u.bits = 128 ∨ u.bits = 192) (id : UInt64) (flags : Flags)
    (range : BitRange) :
    (∃ fault, create ⟨id, flags⟩ range = .error fault ∧
      create ⟨id, flags.symmDiff u⟩ range = .error fault) ∨
    ∃ a b, create ⟨id, flags⟩ range = .ok a ∧ create ⟨id, flags.symmDiff u⟩ range = .ok b ∧
      a.SameAnswers b ∧ a ≠ b ∧
      ∀ v w range range', a.select range = .ok v → b.select range' = .ok w → ¬ v.overlaps w := by
  obtain ⟨hunnamed, hne⟩ := Flags.unnamed_eq_self_of_bits hu
  have halike := Slot.alike_symmDiff hunnamed id flags
  have hslot : (⟨id, flags⟩ : Slot) ≠ ⟨id, flags.symmDiff u⟩ := fun he =>
    Flags.symmDiff_ne_left hne (congrArg Slot.flags he).symm
  refine (create_of_alike halike range).imp_right fun ⟨ha, hb⟩ => ⟨_, _, ha, hb, ?_⟩
  refine ⟨sameAnswers_of_alike halike range, fun he => hslot (congrArg slot he), ?_⟩
  intro v w range range' hv hw
  exact not_overlaps_of_select hslot hv hw

/-- Flipping both unnamed bits of a timestamp counter hides it behind another register that is
written alike, and it leaves the fault of a temporary that is physical. -/
theorem lookalike_of_counter_and_fault :
    (∃ a b : Register, a = ⟨⟨9, ⟨0x31⟩⟩, ⟨32, 32⟩⟩ ∧ b = ⟨⟨9, ⟨0xf1⟩⟩, ⟨32, 32⟩⟩ ∧
      create a.slot a.range = .ok a ∧ create b.slot b.range = .ok b ∧
      toString a = "?&&r9:32" ∧ toString b = "?&&r9:32" ∧ a ≠ b ∧ ¬ a.overlaps b) ∧
    create ⟨9, ⟨0x03⟩⟩ ⟨32, 32⟩ = .error .physicalLocal ∧
    create ⟨9, ⟨0x43⟩⟩ ⟨32, 32⟩ = .error .physicalLocal := by
  constructor
  · rcases unnamed_flags_separate_lookalikes (u := ⟨192⟩) (by decide) 9 ⟨0x31⟩ ⟨32, 32⟩ with
      ⟨fault, hfault, -⟩ | ⟨a, b, ha, hb, hsame, hne, hviews⟩
    · cases hfault
    · cases ha
      cases hb
      have htext := hsame.render .numbered
      exact ⟨_, _, rfl, rfl, rfl, rfl, by decide, htext.symm.trans (by decide), hne,
        hviews _ _ ⟨32, 32⟩ ⟨32, 32⟩ rfl rfl⟩
  · rcases unnamed_flags_separate_lookalikes (u := ⟨64⟩) (by decide) 9 ⟨0x03⟩ ⟨32, 32⟩ with
      ⟨fault, hfault, hfault'⟩ | ⟨a, b, ha, -⟩
    · cases hfault
      exact ⟨rfl, hfault'⟩
    · cases ha

end Register

end VirtualIsa
