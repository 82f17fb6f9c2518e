import VirtualIsa.Catalog.Basic
import VirtualIsa.Proofs.Scan

/-!
# Building a catalog and looking names up in it

The index of a catalog grows together with the entries, one name at a time, and the first name
that is taken already ends the building.

* `Catalog.ofInstructions_eq_error_iff`: the name that is reported is the one at the first
  position that repeats an earlier name, which need not be the first name that occurs twice;
* `Catalog.Indexed.position?_eq_some_iff`: the index is the inverse of the names of the entries,
  so that a look-up never leaves the entries. Main statement:
  `Catalog.ofInstructions_index_exact`.
-/

namespace VirtualIsa

namespace Catalog

variable {c : Catalog} {is : List Instruction}

/-! ### Building -/

/-- An entry is refused when its name is taken. -/
theorem insert_eq_error_iff (h : c.Indexed) {i : Instruction} {e : Error} :
    c.insert i = .error e ↔ i.name ∈ c.toList.map (·.name) ∧ e = .duplicateName i.name := by
  rw [← h.contains_iff]
  unfold insert
  cases c.index.contains i.name <;> simp [eq_comm (a := e)]

theorem exists_ofInstructions_eq_ok_iff :
    (∃ c, ofInstructions is = .ok c) ↔ (is.map (·.name)).Nodup := by
  constructor
  · rintro ⟨c, hc⟩
    exact (ofInstructions_eq_ok hc).2.2
  · exact exists_ofInstructions_eq_ok

/-- Building fails at the first name that occurs before. -/
theorem ofInstructions_eq_error_iff {e : Error} :
    ofInstructions is = .error e ↔
      ∃ k, ∃ i ∈ is[k]?, RepeatsAt Instruction.name is k ∧
        (∀ j < k, ¬ RepeatsAt Instruction.name is j) ∧ e = .duplicateName i.name := by
  rw [ofInstructions, foldlM_eq_error_iff]
  constructor
  · rintro ⟨k, i, c, hi, hc, he⟩
    -- the entries before the failure make a catalog, whose index knows exactly their names
    obtain ⟨hx, hl, hd⟩ := ofInstructions_eq_ok hc
    rw [insert_eq_error_iff hx, hl, ← repeatsAt_iff hi] at he
    exact ⟨k, i, hi, he.1, nodup_map_take_iff.1 hd, he.2⟩
  · rintro ⟨k, i, hi, hrep, hfirst, he⟩
    obtain ⟨c, hc⟩ := exists_ofInstructions_eq_ok (nodup_map_take_iff.2 hfirst)
    obtain ⟨hx, hl, -⟩ := ofInstructions_eq_ok hc
    refine ⟨k, i, c, hi, hc, ?_⟩
    rw [insert_eq_error_iff hx, hl, ← repeatsAt_iff hi]
    exact ⟨hrep, he⟩

/-! ### Looking up -/

theorem contains_eq_isSome_position? (c : Catalog) (name : String) :
    c.contains name = (c.position? name).isSome :=
  Std.HashMap.contains_eq_isSome_getElem?

namespace Indexed

variable {name : String} {k l : ℕ}

/-- The position of a name is that of the entry with the name. -/
theorem position?_eq_some_iff (h : c.Indexed) :
    c.position? name = some k ↔ ∃ hk : k < c.entries.size, c.entries[k].name = name := by
  rw [position?, h name k]
  constructor
  · rintro ⟨i, hi, rfl⟩
    obtain ⟨hk, rfl⟩ := Array.getElem?_eq_some_iff.1 hi
    exact ⟨hk, rfl⟩
  · rintro ⟨hk, rfl⟩
    exact ⟨_, Array.getElem?_eq_getElem hk, rfl⟩

/-- No two entries have one name. -/
theorem eq_of_name_eq (h : c.Indexed) (hk : k < c.entries.size) (hl : l < c.entries.size)
    (hname : c.entries[k].name = c.entries[l].name) : k = l := by
  have hpk := h.position?_eq_some_iff.2 ⟨hk, hname⟩
  have hpl := h.position?_eq_some_iff.2 ⟨hl, rfl⟩
  exact Option.some.inj (hpk.symm.trans hpl)

/-- A name with a position is found at that position, which is one of the entries. -/
theorem get?_eq_getElem (h : c.Indexed) (hp : c.position? name = some k) :
    ∃ hk : k < c.entries.size, c.get? name = some c.entries[k] := by
  obtain ⟨hk, -⟩ := h.position?_eq_some_iff.1 hp
  refine ⟨hk, ?_⟩
  rw [get?, hp, Option.bind_some, Array.getElem?_eq_getElem hk]

end Indexed

/-- **A catalog exists exactly when the names are distinct**, it holds the given instructions,
and its index is exactly the inverse of their names; otherwise the first repeated name is
reported. -/
theorem ofInstructions_index_exact (is : List Instruction) :
    ((∃ c, ofInstructions is = .ok c) ↔ (is.map (·.name)).Nodup) ∧
    (∀ e, ofInstructions is = .error e ↔
      ∃ k, ∃ i ∈ is[k]?, RepeatsAt Instruction.name is k ∧
        (∀ j < k, ¬ RepeatsAt Instruction.name is j) ∧ e = .duplicateName i.name) ∧
    ∀ c, ofInstructions is = .ok c →
      c.entries.toList = is ∧ c.size = is.length ∧
      (∀ (k l : ℕ) (hk : k < c.entries.size) (hl : l < c.entries.size),
        c.entries[k].name = c.entries[l].name → k = l) ∧
      ∀ name,
        (∀ k, c.position? name = some k ↔
          ∃ hk : k < c.entries.size, c.entries[k].name = name) ∧
        (c.contains name ↔ (c.position? name).isSome) ∧
        (∀ k, c.position? name = some k →
          ∃ hk : k < c.entries.size, c.get? name = some c.entries[k]) ∧
        (c.position? name = none → c.get? name = none) := by
  refine ⟨exists_ofInstructions_eq_ok_iff, fun e => ofInstructions_eq_error_iff, fun c hc => ?_⟩
  obtain ⟨hx, hl, -⟩ := ofInstructions_eq_ok hc
  have hsize : c.size = is.length := by
    rw [← hl, toList, Array.length_toList, size]
  refine ⟨hl, hsize, fun k l hk hl => hx.eq_of_name_eq hk hl, fun name => ⟨fun k =>
    hx.position?_eq_some_iff, ?_, fun k => hx.get?_eq_getElem, fun hnone => ?_⟩⟩
  · rw [contains_eq_isSome_position?]
  · rw [get?, hnone, Option.bind_none]

end Catalog

end VirtualIsa
