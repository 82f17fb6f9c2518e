import VirtualIsa.Catalog.Basic
import VirtualIsa.Proofs.Json

/-!
# Dumps of catalogs

The dump of an instruction has a field for each of its parts, and the parts that are missing are
`null`. Nothing of the instruction is lost in its text, whatever its name, and nothing of a list of
instructions.

* `Instruction.toJson_inj`: the values of the fields tell the parts. Main statement:
  `Catalog.dumps_tell_instructions`, texts are equal exactly when instructions are.
-/

namespace VirtualIsa

namespace Json

variable {α : Type*} {f : α → Json}

/-- A missing value is told from one that is there, if none of these is `null`. -/
theorem ofOption_inj {o o' : Option α} (hnull : ∀ a, f a ≠ null)
    (hf : ∀ a b, f a = f b ↔ a = b) : ofOption f o = ofOption f o' ↔ o = o' := by
  cases o with
  | none =>
    cases o' with
    | none => simp
    | some b => simpa [ofOption] using (hnull b).symm
  | some a =>
    cases o' with
    | none => simpa [ofOption] using hnull a
    | some b => simp [ofOption, hf]

theorem arr_map_inj {xs ys : List α} (hf : ∀ a b, f a = f b ↔ a = b) :
    arr (xs.map f) = arr (ys.map f) ↔ xs = ys := by
  rw [arr.injEq]
  exact (List.map_injective_iff.2 fun a b => (hf a b).1).eq_iff

end Json

theorem Access.toJson_inj (a b : Access) : a.toJson = b.toJson ↔ a = b := by
  rw [toJson, toJson, Json.str.injEq, name_inj]

theorem Operator.toJson_inj (a b : Operator) : a.toJson = b.toJson ↔ a = b := by
  rw [toJson, toJson, Json.str.injEq, key_inj]

theorem MemoryAccess.toJson_inj (m m' : MemoryAccess) : m.toJson = m'.toJson ↔ m = m' := by
  cases m
  cases m'
  simp [toJson]

namespace Instruction

/-- The fields of a dump tell all parts of the instruction. -/
theorem toJson_inj (i i' : Instruction) : i.toJson = i'.toJson ↔ i = i' := by
  refine ⟨fun h => ?_, congrArg toJson⟩
  obtain ⟨name, operands, size, volatile, operator, ⟨virtual, native⟩, memory⟩ := i
  obtain ⟨name', operands', size', volatile', operator', ⟨virtual', native'⟩, memory'⟩ := i'
  simp only [toJson, Json.obj.injEq, List.cons.injEq, Prod.mk.injEq, true_and, and_true,
    Json.str.injEq, Json.bool.injEq] at h
  obtain ⟨rfl, hoperands, hsize, rfl, hoperator, hvirtual, hnative, hmemory⟩ := h
  have hnum (a b : ℕ) : Json.num a = Json.num b ↔ a = b := by rw [Json.num.injEq]
  rw [Json.arr_map_inj Access.toJson_inj] at hoperands
  rw [Json.ofOption_inj nofun hnum] at hsize
  rw [Json.ofOption_inj nofun Operator.toJson_inj] at hoperator
  rw [Json.arr_map_inj hnum] at hvirtual hnative
  rw [Json.ofOption_inj nofun MemoryAccess.toJson_inj] at hmemory
  rw [hoperands, hsize, hoperator, hvirtual, hnative, hmemory]

end Instruction

namespace Catalog

/-- **Dumps lose nothing.** Two instructions with one text agree in every part, whatever characters
their names are made of, and so do the instructions of two lists with one text, one by one in their
order. A catalog is dumped as the list of its entries. -/
theorem dumps_tell_instructions :
    (∀ i i' : Instruction, i.toJson.compact = i'.toJson.compact ↔ i = i') ∧
    (∀ is is' : List Instruction,
      (Json.arr (is.map Instruction.toJson)).compact =
        (Json.arr (is'.map Instruction.toJson)).compact ↔ is = is') ∧
    ∀ c c' : Catalog, c.toJson.compact = c'.toJson.compact ↔ c.toList = c'.toList := by
  refine ⟨fun i i' => ?_, fun is is' => ?_, fun c c' => ?_⟩
  · rw [Json.compact_eq_compact_iff, Instruction.toJson_inj]
  · rw [Json.compact_eq_compact_iff, Json.arr_map_inj Instruction.toJson_inj]
  · rw [Json.compact_eq_compact_iff, toJson, toJson, Json.arr_map_inj Instruction.toJson_inj]

end Catalog

end VirtualIsa
