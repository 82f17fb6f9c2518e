import Mathlib.Data.List.Nodup

/-!
# Lists that are checked from first to last

A check that goes through a list and stops at the first bad item decides more than whether
the list is good: it also decides which item is reported.

* `foldlM_eq_error_iff`: a run fails at the position whose step fails, in the state to which
  the items before it have led;
* `RepeatsAt key xs k`: the item at position `k` has the key of an earlier item. Main
  statement: `nodup_map_take_iff`, the keys of the first items are distinct exactly when
  none of these items repeats.
-/

namespace VirtualIsa

section Run

universe u

variable {σ τ : Type u} {α ε : Type*} {f : σ → α → Except ε σ}

theorem bind_eq_ok_iff {x : Except ε σ} {g : σ → Except ε τ} {t : τ} :
    (x >>= g) = .ok t ↔ ∃ s, x = .ok s ∧ g s = .ok t := by
  cases x <;> simp [bind, Except.bind]

theorem bind_eq_error_iff {x : Except ε σ} {g : σ → Except ε τ} {e : ε} :
    (x >>= g) = .error e ↔ x = .error e ∨ ∃ s, x = .ok s ∧ g s = .error e := by
  cases x <;> simp [bind, Except.bind]

/-- A run fails where a step fails, after all the steps before it have succeeded. -/
theorem foldlM_eq_error_iff {s : σ} {xs : List α} {e : ε} :
    xs.foldlM f s = .error e ↔
      ∃ k x s', xs[k]? = some x ∧ (xs.take k).foldlM f s = .ok s' ∧ f s' x = .error e := by
  induction xs generalizing s with
  | nil => simp [pure, Except.pure]
  | cons y ys ih =>
    -- either the first step fails, or it leads to a state in which a later one does
    rw [List.foldlM_cons, bind_eq_error_iff]
    constructor
    · rintro (hy | ⟨s₁, hy, h⟩)
      · exact ⟨0, y, s, rfl, rfl, hy⟩
      · obtain ⟨k, x, s', hx, hs, he⟩ := ih.1 h
        refine ⟨k + 1, x, s', hx, ?_, he⟩
        rw [List.take_succ_cons, List.foldlM_cons, hy]
        exact hs
    · rintro ⟨k, x, s', hx, hs, he⟩
      cases k with
      | zero =>
        cases hx
        cases hs
        exact .inl he
      | succ k =>
        rw [List.take_succ_cons, List.foldlM_cons, bind_eq_ok_iff] at hs
        obtain ⟨s₁, hy, hs⟩ := hs
        exact .inr ⟨s₁, hy, ih.2 ⟨k, x, s', hx, hs, he⟩⟩

end Run

/-! ### Repeated keys -/

section Repeats

variable {α β : Type*} {key : α → β} {xs : List α}

/-- The item at position `k` has the key of an item before it. -/
def RepeatsAt (key : α → β) (xs : List α) (k : ℕ) : Prop :=
  ∃ x ∈ xs[k]?, ∃ j < k, ∃ y ∈ xs[j]?, key y = key x

theorem mem_take_iff {k : ℕ} {x : α} : x ∈ xs.take k ↔ ∃ j < k, xs[j]? = some x := by
  rw [List.mem_iff_getElem?]
  constructor
  · rintro ⟨j, hj⟩
    rw [List.getElem?_take] at hj
    split_ifs at hj with hlt
    exact ⟨j, hlt, hj⟩
  · rintro ⟨j, hlt, hj⟩
    exact ⟨j, by rw [List.getElem?_take_of_lt hlt, hj]⟩

/-- An item repeats when its key is among those of the items before it. -/
theorem repeatsAt_iff {k : ℕ} {x : α} (hx : xs[k]? = some x) :
    RepeatsAt key xs k ↔ key x ∈ (xs.take k).map key := by
  simp only [RepeatsAt, hx, Option.mem_def, Option.some.injEq, List.mem_map, mem_take_iff]
  constructor
  · rintro ⟨_, rfl, j, hj, y, hy, he⟩
    exact ⟨y, ⟨j, hj, hy⟩, he⟩
  · rintro ⟨y, ⟨j, hj, hy⟩, he⟩
    exact ⟨x, rfl, j, hj, y, hy, he⟩

/-- The key of an item that repeats is counted twice. -/
theorem RepeatsAt.two_le_count [DecidableEq β] {k : ℕ} {x : α} (h : RepeatsAt key xs k)
    (hx : xs[k]? = some x) : 2 ≤ (xs.map key).count (key x) := by
  -- once before position `k`, and once from there on
  have hbefore : key x ∈ (xs.take k).map key := (repeatsAt_iff hx).1 h
  have hfrom : key x ∈ (xs.drop k).map key := by
    refine List.mem_map_of_mem (List.mem_iff_getElem?.2 ⟨0, ?_⟩)
    rw [List.getElem?_drop]
    exact hx
  have hcount : (xs.map key).count (key x) =
      ((xs.take k).map key).count (key x) + ((xs.drop k).map key).count (key x) := by
    rw [← List.count_append, ← List.map_append, List.take_append_drop]
  have h₁ := List.count_pos_iff.2 hbefore
  have h₂ := List.count_pos_iff.2 hfrom
  omega

/-- The keys of the first `n` items are distinct when none of these items repeats. -/
theorem nodup_map_take_iff {n : ℕ} :
    ((xs.take n).map key).Nodup ↔ ∀ k < n, ¬ RepeatsAt key xs k := by
  induction n with
  | zero => simp
  | succ n ih =>
    rw [List.take_add_one, List.map_append, List.nodup_append', ih, Nat.forall_lt_succ_right]
    -- past the end there is nothing to repeat
    cases hn : xs[n]? with
    | none =>
      have hrep : ¬ RepeatsAt key xs n := fun ⟨x, hx, _⟩ => by rw [hn] at hx; cases hx
      simp [hrep]
    | some x => simp [repeatsAt_iff hn, List.disjoint_singleton]

/-- Keys are distinct when no item repeats. -/
theorem nodup_map_iff : (xs.map key).Nodup ↔ ∀ k, ¬ RepeatsAt key xs k := by
  rw [← List.take_length (l := xs), nodup_map_take_iff, List.take_length]
  refine ⟨fun h k hrep => ?_, fun h k _ => h k⟩
  have hlt : k < xs.length := by
    obtain ⟨x, hx, -⟩ := hrep
    exact (List.getElem?_eq_some_iff.1 hx).1
  exact h k hlt hrep

end Repeats

end VirtualIsa
