import VirtualIsa.Proofs.Json
import VirtualIsa.Register.Basic

/-!
# Dumps of registers

The dump of a register has its id, its flags as a text and its range. The text of a set of flags has
a name for each named flag of the set and a number for all its other bits, any of which may be
missing, and tells the whole byte.

* `Flags.eq_iff`: the named flags and the unnamed bits make up a set. Main statement:
  `Flags.text_inj`, the text of a set tells the set;
* `Register.dump_tells_register`, texts of dumps are equal exactly when registers are.
-/

namespace VirtualIsa

/-! ### Hexadecimal numbers -/

section Hexadecimal

variable {m n : ℕ}

/-- The number that hexadecimal digits stand for is read from them. -/
theorem foldl_hexValue_toDigits (n : ℕ) :
    (Nat.toDigits 16 n).foldl (fun v c => 16 * v + Json.hexValue c) 0 = n := by
  induction n using Nat.base_induction 16 (by decide) with
  | single m hm =>
    rw [Nat.toDigits_of_lt_base hm]
    simp [Json.hexValue_digitChar m hm]
  | digit m k hk hm ih =>
    rw [← Nat.toDigits_append_toDigits (by decide) hm hk, List.foldl_append, ih,
      Nat.toDigits_of_lt_base hk]
    simp [Json.hexValue_digitChar k hk]

theorem hexDigits_inj : Nat.toDigits 16 m = Nat.toDigits 16 n ↔ m = n := by
  refine ⟨fun h => ?_, congrArg _⟩
  rw [← foldl_hexValue_toDigits m, h, foldl_hexValue_toDigits]

theorem blank_not_mem_hexDigits (n : ℕ) : ' ' ∉ Nat.toDigits 16 n := by
  have hdigit (k : ℕ) : ' ' ≠ Nat.digitChar k := (Nat.digitChar_ne ' ' (by decide)).symm
  induction n using Nat.base_induction 16 (by decide) with
  | single m hm =>
    rw [Nat.toDigits_of_lt_base hm]
    simp [hdigit]
  | digit m k hk hm ih =>
    rw [← Nat.toDigits_append_toDigits (by decide) hm hk, Nat.toDigits_of_lt_base hk]
    simp [hdigit, ih]

end Hexadecimal

theorem Flag.name_inj {f g : Flag} : f.name = g.name ↔ f = g := by
  cases f <;> cases g <;> decide

namespace Flags

variable {s t : Flags} {f : Flag}

/-! ### What makes up a set -/

/-- Every bit of a set is the bit of a named flag, or one of the unnamed bits. -/
theorem eq_iff : s = t ↔ (∀ f, f ∈ s ↔ f ∈ t) ∧ s.unnamed = t.unnamed := by
  refine ⟨fun h => by simp [h], fun ⟨hnamed, hunnamed⟩ => ?_⟩
  have hbits : ∀ i < 8, named.bits.toBitVec.getLsbD i = false ∨ ∃ f ∈ Flag.all, f.index = i := by
    decide
  -- taking the named flags away leaves every other bit as it is
  refine Flags.ext (UInt8.toBitVec_inj.1 (BitVec.eq_of_getLsbD_eq fun i hi => ?_))
  obtain hbit | ⟨f, -, rfl⟩ := hbits i hi
  · have hrest := congrArg (·.bits.toBitVec.getLsbD i) hunnamed
    simpa only [unnamed, SDiff.sdiff, UInt8.toBitVec_and, UInt8.toBitVec_not, BitVec.getLsbD_and,
      BitVec.getLsbD_not, hi, hbit, decide_true, Bool.not_false, Bool.and_true] using hrest
  · exact Bool.eq_iff_iff.2 (hnamed f)

/-! ### The text of a set -/

/-- The item for the unnamed bits. -/
def unnamedItem (s : Flags) : String := "0x" ++ String.ofList (Nat.toDigits 16 s.unnamed.bits.toNat)

theorem items_eq (s : Flags) : s.items = s.toList.map Flag.name ++
    if s.unnamed = ∅ then [] else [s.unnamedItem] := by
  simp [items, isEmpty, unnamedItem]

theorem unnamedItem_inj : s.unnamedItem = t.unnamedItem ↔ s.unnamed = t.unnamed := by
  rw [unnamedItem, unnamedItem, String.append_right_inj, String.ofList_inj, hexDigits_inj,
    UInt8.toNat_inj, Flags.ext_iff]

/-- The item for the unnamed bits is no name of a flag, as it begins with a digit. -/
theorem name_ne_unnamedItem (f : Flag) (s : Flags) : f.name ≠ s.unnamedItem := by
  intro h
  have hhead := congrArg (·.toList.head?) h
  cases f <;> simp [Flag.name, unnamedItem] at hhead

/-- The items name the flags of the set. -/
theorem name_mem_items_iff : f.name ∈ s.items ↔ f ∈ s := by
  rw [items_eq, List.mem_append, List.mem_map]
  constructor
  · rintro (⟨g, hg, hname⟩ | hitem)
    · rw [← Flag.name_inj.1 hname]
      exact mem_toList.1 hg
    · split_ifs at hitem
      · cases hitem
      · exact absurd (List.mem_singleton.1 hitem) (name_ne_unnamedItem f s)
  · intro hf
    exact .inl ⟨f, mem_toList.2 hf, rfl⟩

/-- The items tell the set. -/
theorem items_inj : s.items = t.items ↔ s = t := by
  refine ⟨fun h => eq_iff.2 ?_, congrArg _⟩
  have hnamed (f : Flag) : f ∈ s ↔ f ∈ t := by
    rw [← name_mem_items_iff, h, name_mem_items_iff]
  have hlists : s.toList = t.toList := List.filter_congr fun f _ => by simp [hnamed f]
  refine ⟨hnamed, ?_⟩
  -- behind the names there is at most the item for the unnamed bits
  rw [items_eq, items_eq, hlists, List.append_cancel_left_eq] at h
  split_ifs at h with hs ht ht
  · rw [hs, ht]
  · exact unnamedItem_inj.1 (List.singleton_inj.1 h)

/-- No item is empty or contains a blank. -/
theorem isPiece_of_mem_items : ∀ item ∈ s.items, item.toList ≠ [] ∧ ' ' ∉ item.toList := by
  intro item hitem
  rw [items_eq, List.mem_append, List.mem_map] at hitem
  rcases hitem with ⟨f, -, rfl⟩ | hitem
  · cases f <;> decide
  · split_ifs at hitem
    · cases hitem
    · rw [List.mem_singleton.1 hitem]
      simp [unnamedItem, blank_not_mem_hexDigits]

/-- The text of a set tells the set, with all its bits. -/
theorem text_inj : s.text = t.text ↔ s = t := by
  have hitems (u : Flags) : ∀ xs ∈ u.items.map String.toList, xs ≠ [] ∧ ' ' ∉ xs := by
    intro xs hxs
    obtain ⟨item, hitem, rfl⟩ := List.mem_map.1 hxs
    exact isPiece_of_mem_items item hitem
  have hsep : " | ".toList = [' ', '|', ' '] := rfl
  rw [text, text, ← String.toList_inj, String.toList_intercalate, String.toList_intercalate, hsep,
    intercalate_inj (hitems s) (hitems t),
    (List.map_injective_iff.2 fun _ _ => String.toList_inj.1).eq_iff, items_inj]

example : (⟨0xc5⟩ : Flags).text = "PHYSICAL | FLAGS | 0xc0" := by decide

end Flags

namespace Register

variable {a b : Register}

/-- The fields of a dump tell all parts of the register. -/
theorem toJson_inj : a.toJson = b.toJson ↔ a = b := by
  obtain ⟨⟨id, flags⟩, ⟨width, offset⟩⟩ := a
  obtain ⟨⟨id', flags'⟩, ⟨width', offset'⟩⟩ := b
  simp [toJson, Flags.toJson, Flags.text_inj, UInt64.toNat_inj, UInt8.toNat_inj, and_assoc]

/-- **Dumps of registers lose nothing.** Two registers with one text agree in their ids, in all
eight bits of their flags, whether these are named or not, and in their ranges. -/
theorem dump_tells_register (a b : Register) :
    (a.toJson.compact = b.toJson.compact ↔
      a.slot.id = b.slot.id ∧ a.slot.flags.bits = b.slot.flags.bits ∧
      a.range.width = b.range.width ∧ a.range.offset = b.range.offset) ∧
    (a.toJson.compact = b.toJson.compact ↔ a = b) ∧
    (a.slot.flags.text = b.slot.flags.text ↔ a.slot.flags.bits = b.slot.flags.bits) := by
  have hparts : a = b ↔ a.slot.id = b.slot.id ∧ a.slot.flags.bits = b.slot.flags.bits ∧
      a.range.width = b.range.width ∧ a.range.offset = b.range.offset := by
    rw [Register.ext_iff, Slot.ext_iff, Flags.ext_iff, BitRange.ext_iff, and_assoc]
  rw [Json.compact_eq_compact_iff, toJson_inj, Flags.text_inj, Flags.ext_iff]
  exact ⟨hparts, Iff.rfl, Iff.rfl⟩

end Register

end VirtualIsa
