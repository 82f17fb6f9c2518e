import Mathlib.Data.Fintype.Fin
import Mathlib.Data.Fintype.EquivFin
import Mathlib.Logic.Equiv.Fin.Rotate
import VirtualIsa.Opcode
import VirtualIsa.Proofs.Catalog.Lookup

/-!
# Catalogs in another order

The index of a catalog is built entry by entry, and the positions in it, as well as the name that is
reported when there is no catalog, depend on the order of the entries. Whether there is a catalog
does not, nor what is found under a name.

* `Moves xs ys σ`: the permutation `σ` of positions takes the list `xs` to the list `ys`. Main
  statement: `perm_iff_exists_moves`;
* `Catalog.exists_duplicateName_of_error`: the name that is reported occurs twice. Main statement:
  `Catalog.lookups_ignore_order`, where positions move with the entries.
-/

namespace VirtualIsa

/-! ### Permutations of positions -/

section Moves

variable {α : Type*} {xs ys : List α} {σ : Fin xs.length ≃ Fin ys.length}

/-- The item at each position of `xs` is the one at the position of `ys` to which `σ` moves it. -/
def Moves (xs ys : List α) (σ : Fin xs.length ≃ Fin ys.length) : Prop := ∀ k, ys[σ k] = xs[k]

instance [DecidableEq α] : Decidable (Moves xs ys σ) :=
  inferInstanceAs (Decidable (∀ k : Fin xs.length, ys[σ k] = xs[k]))

/-- An item occurs at as many positions as it is counted. -/
theorem card_positions [DecidableEq α] (xs : List α) (x : α) :
    Fintype.card {k : Fin xs.length // xs[k] = x} = xs.count x := by
  rw [Fintype.card_subtype]
  exact Fin.card_filter_univ_eq_vector_get_eq_count x ⟨xs, rfl⟩

/-- Lists are permutations of each other when a permutation of positions takes one to the other. -/
theorem perm_iff_exists_moves [DecidableEq α] : xs.Perm ys ↔ ∃ σ, Moves xs ys σ := by
  constructor
  · intro h
    have hcard (x : α) : Fintype.card {k : Fin xs.length // xs[k] = x} =
        Fintype.card {k : Fin ys.length // ys[k] = x} := by
      rw [card_positions, card_positions, h.count_eq]
    -- match, item by item, its positions in one list with those in the other
    exact ⟨Equiv.ofFiberEquiv fun x => Fintype.equivOfCardEq (hcard x),
      Equiv.ofFiberEquiv_map _⟩
  · rintro ⟨σ, hσ⟩
    rw [List.perm_iff_count]
    intro x
    rw [← card_positions, ← card_positions]
    exact Fintype.card_congr (σ.subtypeEquiv fun k => by rw [hσ k])

end Moves

namespace Catalog

variable {is is' : List Instruction} {c c' : Catalog}

/-! ### Building -/

/-- Only a name that occurs twice is reported. -/
theorem exists_duplicateName_of_error {e : Error} (h : ofInstructions is = .error e) :
    ∃ name, e = .duplicateName name ∧ 2 ≤ (is.map (·.name)).count name := by
  obtain ⟨k, i, hi, hrep, -, rfl⟩ := ofInstructions_eq_error_iff.1 h
  exact ⟨i.name, rfl, hrep.two_le_count hi⟩

theorem exists_ofInstructions_eq_ok_iff_of_perm (h : is.Perm is') :
    (∃ c, ofInstructions is = .ok c) ↔ ∃ c, ofInstructions is' = .ok c := by
  rw [exists_ofInstructions_eq_ok_iff, exists_ofInstructions_eq_ok_iff]
  exact (h.map _).nodup_iff

/-- If there is no catalog, there is none in any other order. -/
theorem exists_error_of_perm {e : Error} (h : is.Perm is') (he : ofInstructions is = .error e) :
    ∃ e', ofInstructions is' = .error e' := by
  cases hc : ofInstructions is' with
  | error e' => exact ⟨e', rfl⟩
  | ok c =>
    obtain ⟨c', hc'⟩ := (exists_ofInstructions_eq_ok_iff_of_perm h).2 ⟨c, hc⟩
    cases he.symm.trans hc'

/-! ### Looking up -/

/-- The entry with a name is found, and no other. -/
theorem Indexed.get?_eq_some_iff (h : c.Indexed) {name : String} {i : Instruction} :
    c.get? name = some i ↔ i ∈ c.toList ∧ i.name = name := by
  rw [get?, Option.bind_eq_some_iff, toList, Array.mem_toList_iff, Array.mem_iff_getElem?]
  constructor
  · rintro ⟨k, hk, hi⟩
    obtain ⟨j, hj, hname⟩ := (h name k).1 hk
    cases hi.symm.trans hj
    exact ⟨⟨k, hi⟩, hname⟩
  · rintro ⟨⟨k, hi⟩, hname⟩
    exact ⟨k, (h name k).2 ⟨i, hi, hname⟩, hi⟩

/-- What is found does not depend on the order of the entries. -/
theorem get?_eq_of_perm (hx : c.Indexed) (hx' : c'.Indexed) (h : c.toList.Perm c'.toList)
    (name : String) : c.get? name = c'.get? name := by
  ext i
  rw [hx.get?_eq_some_iff, hx'.get?_eq_some_iff, h.mem_iff]

theorem contains_eq_of_perm (hx : c.Indexed) (hx' : c'.Indexed) (h : c.toList.Perm c'.toList)
    (name : String) : c.contains name = c'.contains name := by
  rw [Bool.eq_iff_iff]
  exact hx.contains_iff.trans ((h.map _).mem_iff.trans hx'.contains_iff.symm)

/-- Every instruction is the entry at the position at which it was given, and is found there. -/
theorem entry_and_position (h : ofInstructions is = .ok c) (k : Fin is.length) :
    c.entries[k.val]? = some is[k] ∧ c.position? is[k].name = some k.val := by
  obtain ⟨hx, rfl, -⟩ := ofInstructions_eq_ok h
  exact ⟨Array.getElem?_eq_getElem k.isLt, hx.position?_eq_some_iff.2 ⟨k.isLt, rfl⟩⟩

/-- **Look-ups do not depend on the order of a catalog.** A permutation of instructions makes a
catalog exactly when they do; if they do not, a name that occurs twice is reported for either order,
though it may be another one. Two such catalogs have as many entries, know the same names and find
the same instructions under them, those with the names, and each entry is found at the position to
which the permutation has moved it. -/
theorem lookups_ignore_order {is is' : List Instruction} {σ : Fin is.length ≃ Fin is'.length}
    (h : Moves is is' σ) :
    ((∃ c, ofInstructions is = .ok c) ↔ ∃ c, ofInstructions is' = .ok c) ∧
    (∀ e, ofInstructions is = .error e → ∃ name name',
      e = .duplicateName name ∧ ofInstructions is' = .error (.duplicateName name') ∧
      2 ≤ (is.map (·.name)).count name ∧ 2 ≤ (is.map (·.name)).count name') ∧
    ∀ c c', ofInstructions is = .ok c → ofInstructions is' = .ok c' →
      c.size = c'.size ∧
      (∀ name, c.contains name = c'.contains name ∧ c.get? name = c'.get? name ∧
        ∀ i, c.get? name = some i ↔ i ∈ is ∧ i.name = name) ∧
      ∀ k : Fin is.length,
        c.entries[k.val]? = some is[k] ∧ c.position? is[k].name = some k.val ∧
        c'.entries[(σ k).val]? = some is[k] ∧ c'.position? is[k].name = some (σ k).val := by
  have hperm : is.Perm is' := perm_iff_exists_moves.2 ⟨σ, h⟩
  refine ⟨exists_ofInstructions_eq_ok_iff_of_perm hperm, fun e he => ?_, fun c c' hc hc' => ?_⟩
  · obtain ⟨e', he'⟩ := exists_error_of_perm hperm he
    obtain ⟨name, rfl, hname⟩ := exists_duplicateName_of_error he
    obtain ⟨name', rfl, hname'⟩ := exists_duplicateName_of_error he'
    rw [← (hperm.map _).count_eq] at hname'
    exact ⟨name, name', rfl, he', hname, hname'⟩
  · obtain ⟨hx, hl, -⟩ := ofInstructions_eq_ok hc
    obtain ⟨hx', hl', -⟩ := ofInstructions_eq_ok hc'
    have hlists : c.toList.Perm c'.toList := by rwa [hl, hl']
    have hsize : c.size = c'.size := hlists.length_eq
    have hfound (name : String) (i : Instruction) :
        c.get? name = some i ↔ i ∈ is ∧ i.name = name := by
      rw [hx.get?_eq_some_iff, hl]
    refine ⟨hsize, fun name => ⟨contains_eq_of_perm hx hx' hlists name,
      get?_eq_of_perm hx hx' hlists name, hfound name⟩, fun k => ?_⟩
    obtain ⟨hentry, hposition⟩ := entry_and_position hc k
    obtain ⟨hentry', hposition'⟩ := entry_and_position hc' (σ k)
    rw [h k] at hentry' hposition'
    exact ⟨hentry, hposition, hentry', hposition'⟩

/-- The last entry goes to the front, and the others find their way one position on; of two names
that occur twice another one is reported. -/
theorem lookups_after_rotation :
    (∃ (is is' : List Instruction) (σ : Fin is.length ≃ Fin is'.length) (c c' : Catalog),
      is = [Opcode.jmp, .nop, .mov].map Opcode.instruction ∧
      is' = [Opcode.mov, .jmp, .nop].map Opcode.instruction ∧ Moves is is' σ ∧
      ofInstructions is = .ok c ∧ ofInstructions is' = .ok c' ∧
      c.position? "nop" = some 1 ∧ c'.position? "nop" = some 2 ∧
      c.get? "nop" = some Opcode.nop.instruction ∧ c.get? "nop" = c'.get? "nop") ∧
    ∃ (is is' : List Instruction) (σ : Fin is.length ≃ Fin is'.length),
      is = [Opcode.nop, .jmp, .jmp, .nop].map Opcode.instruction ∧
      is' = [Opcode.nop, .nop, .jmp, .jmp].map Opcode.instruction ∧ Moves is is' σ ∧
      ofInstructions is = .error (.duplicateName "jmp") ∧
      ofInstructions is' = .error (.duplicateName "nop") ∧
      2 ≤ (is.map (·.name)).count "jmp" ∧ 2 ≤ (is.map (·.name)).count "nop" := by
  constructor
  · have h : Moves ([Opcode.jmp, .nop, .mov].map Opcode.instruction)
        ([Opcode.mov, .jmp, .nop].map Opcode.instruction) (finRotate 3) := by decide
    have hnodup : (([Opcode.jmp, .nop, .mov].map Opcode.instruction).map (·.name)).Nodup := by
      decide
    obtain ⟨hok, -, hfound⟩ := lookups_ignore_order h
    obtain ⟨c, hc⟩ := exists_ofInstructions_eq_ok hnodup
    obtain ⟨c', hc'⟩ := hok.1 ⟨c, hc⟩
    obtain ⟨-, hnames, hpositions⟩ := hfound c c' hc hc'
    obtain ⟨-, hnop, -, hnop'⟩ := hpositions ⟨1, by decide⟩
    obtain ⟨-, hsame, hget⟩ := hnames "nop"
    have hmem : Opcode.nop.instruction ∈ [Opcode.jmp, .nop, .mov].map Opcode.instruction := by simp
    exact ⟨_, _, _, c, c', rfl, rfl, h, hc, hc', hnop, hnop', (hget _).2 ⟨hmem, rfl⟩, hsame⟩
  · have h : Moves ([Opcode.nop, .jmp, .jmp, .nop].map Opcode.instruction)
        ([Opcode.nop, .nop, .jmp, .jmp].map Opcode.instruction) (finRotate 4) := by decide
    have hjmp : ofInstructions ([Opcode.nop, .jmp, .jmp, .nop].map Opcode.instruction) =
        .error (.duplicateName "jmp") :=
      ofInstructions_eq_error_iff.2 ⟨2, _, rfl, (repeatsAt_iff rfl).2 (by decide),
        nodup_map_take_iff.1 (by decide), rfl⟩
    have hnop : ofInstructions ([Opcode.nop, .nop, .jmp, .jmp].map Opcode.instruction) =
        .error (.duplicateName "nop") :=
      ofInstructions_eq_error_iff.2 ⟨1, _, rfl, (repeatsAt_iff rfl).2 (by decide),
        nodup_map_take_iff.1 (by decide), rfl⟩
    obtain ⟨name, name', he, he', htwice, htwice'⟩ := (lookups_ignore_order h).2.1 _ hjmp
    cases he
    cases hnop.symm.trans he'
    exact ⟨_, _, _, rfl, rfl, h, hjmp, hnop, htwice, htwice'⟩

end Catalog

end VirtualIsa
