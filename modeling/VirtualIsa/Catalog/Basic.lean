import Std.Data.HashMap
import VirtualIsa.Instruction.Row

/-!
# Catalogs of instructions

A catalog keeps instructions in table order and finds them by name, through an index of
the positions of the names. No name occurs twice.

* `Catalog`, `Catalog.insert` and `Catalog.ofInstructions`, which fails at the first
  instruction whose name is taken;
* `Catalog.Indexed`: the index finds exactly the entries. Main statements:
  `Catalog.ofInstructions_eq_ok`, a catalog that was built holds the given instructions,
  and its index is right, and `Catalog.exists_ofInstructions_eq_ok`, instructions with
  distinct names do make a catalog;
* the look-ups by name.
-/

namespace VirtualIsa

/-- Instructions in table order, with the position of each name. -/
structure Catalog where
  entries : Array Instruction
  index : Std.HashMap String Nat

/-- Why there is no catalog of some instructions or rows. -/
inductive Catalog.Error where
  | duplicateName (name : String)
  | defect (d : Defect)
  deriving DecidableEq

/-- The text of an error; a defect is reported as it is. -/
def Catalog.Error.message : Catalog.Error → String
  | duplicateName name => "instruction '" ++ name ++ "' registered more than once"
  | defect d => d.message

namespace Catalog

/-- The catalog without entries. -/
def empty : Catalog := ⟨#[], ∅⟩

/-- A catalog with one more entry, whose name has to be new. -/
def insert (c : Catalog) (i : Instruction) : Except Error Catalog :=
  if c.index.contains i.name then .error (.duplicateName i.name)
  else .ok ⟨c.entries.push i, c.index.insert i.name c.entries.size⟩

/-- The catalog of the given instructions, in their order. -/
def ofInstructions (is : List Instruction) : Except Error Catalog := is.foldlM insert empty

/-- The instructions of the given rows. -/
def buildRows : List Row → Except Error (List Instruction)
  | [] => .ok []
  | row :: rows =>
    match row.build with
    | .error d => .error (.defect d)
    | .ok i => (buildRows rows).map (i :: ·)

/-- The catalog of the instructions that the given rows describe. -/
def ofRows (rows : List Row) : Except Error Catalog := (buildRows rows).bind ofInstructions

/-! ### Look-ups -/

/-- The position of the entry with a name. -/
def position? (c : Catalog) (name : String) : Option Nat := c.index[name]?

/-- The catalog has an entry with the name. -/
def contains (c : Catalog) (name : String) : Bool := c.index.contains name

/-- The entry with a name. -/
def get? (c : Catalog) (name : String) : Option Instruction :=
  (c.position? name).bind (c.entries[·]?)

/-- The number of entries. -/
def size (c : Catalog) : Nat := c.entries.size

/-- There are no entries. -/
def isEmpty (c : Catalog) : Bool := c.entries.isEmpty

/-- The entries in table order. -/
def toList (c : Catalog) : List Instruction := c.entries.toList

/-- The dump of a catalog: its entries in table order. -/
def toJson (c : Catalog) : Json := .arr (c.toList.map Instruction.toJson)

/-! ### The index -/

/-- The index leads from a name to the entry with that name, and from no other name
anywhere. -/
def Indexed (c : Catalog) : Prop :=
  ∀ (name : String) (k : Nat), c.index[name]? = some k ↔
    ∃ i : Instruction, c.entries[k]? = some i ∧ i.name = name

theorem indexed_empty : empty.Indexed := by
  intro name k
  simp [empty]

theorem Indexed.contains_iff {c : Catalog} (h : c.Indexed) {name : String} :
    c.index.contains name ↔ name ∈ c.toList.map (·.name) := by
  rw [Std.HashMap.contains_eq_isSome_getElem?, Option.isSome_iff_exists]
  simp only [h name, toList, List.mem_map, Array.mem_toList_iff, Array.mem_iff_getElem?]
  constructor
  · rintro ⟨k, i, hk, hi⟩
    exact ⟨i, ⟨k, hk⟩, hi⟩
  · rintro ⟨i, ⟨k, hk⟩, hi⟩
    exact ⟨k, i, hk, hi⟩

theorem Indexed.push {c : Catalog} (h : c.Indexed) {i : Instruction}
    (hi : i.name ∉ c.toList.map (·.name)) :
    Indexed ⟨c.entries.push i, c.index.insert i.name c.entries.size⟩ := by
  intro name k
  have hnew {j : Instruction} (hj : c.entries[k]? = some j) : j.name ≠ i.name := fun he =>
    hi (he ▸ List.mem_map_of_mem (Array.mem_toList_iff.2 (Array.mem_of_getElem? hj)))
  have hlt {j : Instruction} (hj : c.entries[k]? = some j) : k < c.entries.size :=
    (Array.getElem?_eq_some_iff.1 hj).1
  have hk := h name k
  rw [Std.HashMap.getElem?_insert, Array.getElem?_push]
  grind

/-- An entry is accepted when its name is new. -/
theorem insert_eq_ok_iff {c c' : Catalog} (h : c.Indexed) {i : Instruction} :
    c.insert i = .ok c' ↔ i.name ∉ c.toList.map (·.name) ∧
      c' = ⟨c.entries.push i, c.index.insert i.name c.entries.size⟩ := by
  rw [← h.contains_iff]
  unfold insert
  cases c.index.contains i.name <;> simp [eq_comm]

/-- Entries added to a catalog: their names are new and distinct, and the index stays right. -/
theorem foldlM_insert_eq_ok {is : List Instruction} {c c' : Catalog} (h : c.Indexed)
    (hc : is.foldlM insert c = .ok c') :
    c'.Indexed ∧ c'.toList = c.toList ++ is ∧ (is.map (·.name)).Nodup ∧
      ∀ i ∈ is, i.name ∉ c.toList.map (·.name) := by
  induction is generalizing c with
  | nil =>
    cases hc
    simp [h]
  | cons i is ih =>
    rw [List.foldlM_cons] at hc
    cases hi : c.insert i with
    | error e => rw [hi] at hc; cases hc
    | ok d =>
      rw [hi] at hc
      obtain ⟨hnew, rfl⟩ := (insert_eq_ok_iff h).1 hi
      obtain ⟨hx, hl, hd, hs⟩ := ih (h.push hnew) hc
      simp only [toList, Array.toList_push] at hl hs hnew ⊢
      grind

/-- A catalog holds the instructions that it was built from, under distinct names, and its
index is right. -/
theorem ofInstructions_eq_ok {is : List Instruction} {c : Catalog}
    (h : ofInstructions is = .ok c) :
    c.Indexed ∧ c.toList = is ∧ (is.map (·.name)).Nodup := by
  obtain ⟨hx, hl, hd, _⟩ := foldlM_insert_eq_ok indexed_empty h
  exact ⟨hx, hl, hd⟩

theorem exists_foldlM_insert_eq_ok {is : List Instruction} {c : Catalog} (h : c.Indexed)
    (hd : (is.map (·.name)).Nodup) (hs : ∀ i ∈ is, i.name ∉ c.toList.map (·.name)) :
    ∃ c', is.foldlM insert c = .ok c' := by
  induction is generalizing c with
  | nil => exact ⟨c, rfl⟩
  | cons i is ih =>
    have hnew := hs i List.mem_cons_self
    rw [List.foldlM_cons, (insert_eq_ok_iff h).2 ⟨hnew, rfl⟩]
    refine ih (h.push hnew) (List.nodup_cons.1 hd).2 fun j hj => ?_
    have hij : i.name ≠ j.name := fun he =>
      (List.nodup_cons.1 hd).1 (List.mem_map.2 ⟨j, hj, he.symm⟩)
    have hj' := hs j (List.mem_cons_of_mem _ hj)
    simp only [toList, Array.toList_push, List.map_append, List.mem_append] at hj' ⊢
    grind

/-- Instructions with distinct names make a catalog. -/
theorem exists_ofInstructions_eq_ok {is : List Instruction} (hd : (is.map (·.name)).Nodup) :
    ∃ c, ofInstructions is = .ok c :=
  exists_foldlM_insert_eq_ok indexed_empty hd (by simp [empty, toList])

end Catalog

end VirtualIsa
