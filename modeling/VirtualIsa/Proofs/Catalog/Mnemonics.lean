import VirtualIsa.Catalog.Standard
import VirtualIsa.Proofs.Catalog.Lookup

/-!
# Reading opcodes

An opcode is read through the index of the standard catalog, at whose position it is taken from the
list of all opcodes. This is right only if three orders agree: that of the opcodes themselves, that
of the list, and that of the entries.

* `Opcode.getElem?_all_eq_some_iff` and `Catalog.getElem?_standard`: the orders agree;
* `Catalog.position?_standard_eq_some_iff`: the positions in the standard catalog are those of the
  opcodes. Main statement: `Opcode.parse_inverts_mnemonic`, a text is read as an opcode exactly when
  it is its mnemonic.
-/

namespace VirtualIsa

namespace Opcode

variable {op : Opcode} {k : ℕ}

theorem mnemonic_inj {op op' : Opcode} : op.mnemonic = op'.mnemonic ↔ op = op' :=
  ⟨List.inj_on_of_nodup_map nodup_mnemonics op.mem_all op'.mem_all, congrArg mnemonic⟩

theorem position_lt (op : Opcode) : op.position < all.length :=
  (List.getElem?_eq_some_iff.1 op.getElem?_all_position).1

/-- The list holds each opcode at its own position and nowhere else. -/
theorem getElem?_all_eq_some_iff : all[k]? = some op ↔ op.position = k := by
  rw [← op.getElem?_all_position, eq_comm]
  exact List.getElem?_inj op.position_lt nodup_mnemonics.of_map

theorem position_inj {op op' : Opcode} : op.position = op'.position ↔ op = op' := by
  rw [← getElem?_all_eq_some_iff, op'.getElem?_all_position, Option.some_inj, eq_comm]

end Opcode

namespace Catalog

variable {text : String} {k : ℕ}

/-- The entries of the standard catalog are in the order of the opcodes. -/
theorem getElem?_standard : standard.entries[k]? = Opcode.all[k]?.map Opcode.instruction := by
  rw [← Array.getElem?_toList, ← List.getElem?_map, ← toList_standard]
  rfl

theorem getElem?_standard_position (op : Opcode) :
    standard.entries[op.position]? = some op.instruction := by
  rw [getElem?_standard, op.getElem?_all_position]
  rfl

/-- A mnemonic is found at the position of its opcode, and no other text is found. -/
theorem position?_standard_eq_some_iff :
    standard.position? text = some k ↔ ∃ op : Opcode, text = op.mnemonic ∧ op.position = k := by
  rw [position?, indexed_standard text k]
  simp only [getElem?_standard, Option.map_eq_some_iff, Opcode.getElem?_all_eq_some_iff]
  constructor
  · rintro ⟨_, ⟨op, hk, rfl⟩, hname⟩
    exact ⟨op, by rw [← hname, Opcode.name_instruction], hk⟩
  · rintro ⟨op, rfl, hk⟩
    exact ⟨op.instruction, ⟨op, hk, rfl⟩, op.name_instruction⟩

end Catalog

namespace Opcode

variable {text : String} {op : Opcode}

theorem parse_eq_ok_iff : parse text = .ok op ↔ text = op.mnemonic := by
  have hbind : (Catalog.standard.position? text).bind (all[·]?) = some op ↔ text = op.mnemonic := by
    simp only [Option.bind_eq_some_iff, Catalog.position?_standard_eq_some_iff,
      getElem?_all_eq_some_iff]
    constructor
    · rintro ⟨_, ⟨op', rfl, rfl⟩, hpos⟩
      rw [position_inj.1 hpos]
    · rintro rfl
      exact ⟨_, ⟨op, rfl, rfl⟩, rfl⟩
  rw [← hbind, parse]
  cases (Catalog.standard.position? text).bind (all[·]?) <;> simp

theorem parse_eq_error_iff {e : UnknownMnemonic} :
    parse text = .error e ↔ (∀ op : Opcode, text ≠ op.mnemonic) ∧ e = ⟨text⟩ := by
  have hnot : (∀ op : Opcode, text ≠ op.mnemonic) ↔ ∀ op, parse text ≠ .ok op :=
    forall_congr' fun op => not_congr parse_eq_ok_iff.symm
  rw [hnot, parse]
  cases (Catalog.standard.position? text).bind (all[·]?) <;> simp [eq_comm]

/-- **Reading undoes naming.** A text is read as an opcode exactly when it is the mnemonic of the
opcode, and any other text is reported whole. The standard catalog exists, and its positions are
those of the opcodes, so that none is past the list of the opcodes or past the entries. -/
theorem parse_inverts_mnemonic (text : String) :
    (∀ op, parse text = .ok op ↔ text = op.mnemonic) ∧
    (∀ e, parse text = .error e ↔ (∀ op : Opcode, text ≠ op.mnemonic) ∧ e = ⟨text⟩) ∧
    (∀ op op' : Opcode, op.mnemonic = op'.mnemonic → op = op') ∧
    Catalog.ofRows (all.map row) = .ok Catalog.standard ∧
    (∀ k, Catalog.standard.position? text = some k → k < all.length) ∧
    (∀ op : Opcode, all[op.position]? = some op ∧
      ∃ h : op.position < Catalog.standard.entries.size,
        Catalog.standard.entries[op.position] = op.instruction ∧
        Catalog.standard.entries[op.position].name = op.mnemonic) ∧
    (∀ k, Catalog.standard.position? text = some k ↔
      ∃ op, parse text = .ok op ∧ op.position = k) ∧
    ∀ op, parse text = .ok op → Catalog.standard.get? text = some op.instruction := by
  refine ⟨fun op => parse_eq_ok_iff, fun e => parse_eq_error_iff, fun op op' => mnemonic_inj.1,
    Catalog.ofRows_eq_standard, fun k hk => ?_, fun op => ⟨op.getElem?_all_position, ?_⟩,
    fun k => ?_, fun op h => ?_⟩
  · obtain ⟨op, -, rfl⟩ := Catalog.position?_standard_eq_some_iff.1 hk
    exact op.position_lt
  · obtain ⟨h, he⟩ := Array.getElem?_eq_some_iff.1 (Catalog.getElem?_standard_position op)
    exact ⟨h, he, by rw [he, name_instruction]⟩
  · simp only [parse_eq_ok_iff, Catalog.position?_standard_eq_some_iff]
  · have hpos := Catalog.position?_standard_eq_some_iff.2 ⟨op, parse_eq_ok_iff.1 h, rfl⟩
    rw [Catalog.get?, hpos, Option.bind_some, Catalog.getElem?_standard_position]

/-- The last opcode is read from its mnemonic; a capital letter or a blank is not overlooked. -/
theorem parse_vpinwm_and_near_misses :
    parse "vpinwm" = .ok vpinwm ∧ Catalog.standard.position? "vpinwm" = some 34 ∧
      Catalog.standard.get? "vpinwm" = some vpinwm.instruction ∧
      parse "Mov" = .error ⟨"Mov"⟩ ∧ parse "mov " = .error ⟨"mov "⟩ := by
  obtain ⟨hok, -, -, -, -, -, hposition, hget⟩ := parse_inverts_mnemonic "vpinwm"
  have hparse : parse "vpinwm" = .ok vpinwm := (hok _).2 rfl
  refine ⟨hparse, (hposition 34).2 ⟨_, hparse, rfl⟩, hget _ hparse, ?_, ?_⟩
  · exact ((parse_inverts_mnemonic _).2.1 _).2 ⟨fun op => by cases op <;> decide, rfl⟩
  · exact ((parse_inverts_mnemonic _).2.1 _).2 ⟨fun op => by cases op <;> decide, rfl⟩

end Opcode

end VirtualIsa
