import VirtualIsa.Catalog.Basic
import VirtualIsa.Opcode

/-!
# The standard catalog

The catalog of all opcodes, and reading an opcode back from its mnemonic.

* `Catalog.standard`, which exists because the rows of the opcodes are without defects and
  the mnemonics are distinct. Main statement: `Catalog.toList_standard`, its entries are
  the instructions of the opcodes in order;
* `Opcode.parse`, through the index of the standard catalog.
-/

namespace VirtualIsa

namespace Opcode

theorem buildRows_map_row (ops : List Opcode) :
    Catalog.buildRows (ops.map row) = .ok (ops.map instruction) := by
  induction ops with
  | nil => rfl
  | cons op ops ih => simp [Catalog.buildRows, build_row, ih, Except.map]

theorem map_name_map_instruction (ops : List Opcode) :
    (ops.map instruction).map (·.name) = ops.map mnemonic := by
  simp [name_instruction]

end Opcode

namespace Catalog

theorem exists_ofRows_eq_ok : ∃ c, ofRows (Opcode.all.map Opcode.row) = .ok c := by
  rw [ofRows, Opcode.buildRows_map_row]
  apply exists_ofInstructions_eq_ok
  rw [Opcode.map_name_map_instruction]
  exact Opcode.nodup_mnemonics

/-- The catalog of all opcodes. -/
def standard : Catalog :=
  (ofRows (Opcode.all.map Opcode.row)).toOption.get (by
    obtain ⟨c, hc⟩ := exists_ofRows_eq_ok
    rw [hc]
    rfl)

theorem ofRows_eq_standard : ofRows (Opcode.all.map Opcode.row) = .ok standard := by
  obtain ⟨c, hc⟩ := exists_ofRows_eq_ok
  simp [standard, hc, Except.toOption]

theorem ofInstructions_eq_standard :
    ofInstructions (Opcode.all.map Opcode.instruction) = .ok standard := by
  rw [← ofRows_eq_standard, ofRows, Opcode.buildRows_map_row]
  rfl

theorem indexed_standard : standard.Indexed :=
  (ofInstructions_eq_ok ofInstructions_eq_standard).1

theorem toList_standard : standard.toList = Opcode.all.map Opcode.instruction :=
  (ofInstructions_eq_ok ofInstructions_eq_standard).2.1

end Catalog

/-- A text that is no mnemonic. -/
structure UnknownMnemonic where
  text : String
  deriving DecidableEq

/-- The report of an unknown mnemonic. -/
def UnknownMnemonic.message (e : UnknownMnemonic) : String :=
  "unknown instruction '" ++ e.text ++ "'"

/-- The opcode with a mnemonic: the one at the position that the standard catalog has for it. -/
def Opcode.parse (text : String) : Except UnknownMnemonic Opcode :=
  match (Catalog.standard.position? text).bind (Opcode.all[·]?) with
  | some op => .ok op
  | none => .error ⟨text⟩

end VirtualIsa
