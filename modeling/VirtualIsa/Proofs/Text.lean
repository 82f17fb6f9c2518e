import Mathlib.Data.List.Basic
import Mathlib.Data.List.Induction

/-!
# Texts that can be taken apart

A text is put together from pieces, and often only the piece that follows shows where one ends. Such
a text can be taken apart again if nothing that may follow a piece could also be a part of it.

* `EndsRun p rest`: the text `rest` does not go on with a character that has the property `p`;
* `run_append_inj`: a run of characters with the property is told from what ends it. Main statement:
  `digits_append_inj`, a decimal number is told from what ends it;
* `intercalate_inj`: pieces are told from the text in which they are joined, if the separator cannot
  begin inside a piece;
* `append_separated_inj`: pieces behind separators are told from any text before them, if their
  number is known.
-/

namespace VirtualIsa

section Runs

variable {α : Type*} {p : α → Bool} {xs ys rest rest' : List α}

/-- No item with the property stands at the front. -/
def EndsRun (p : α → Bool) (rest : List α) : Prop := ∀ a ∈ rest.head?, p a = false

@[simp] theorem endsRun_nil : EndsRun p [] := nofun

@[simp] theorem endsRun_cons {a : α} : EndsRun p (a :: rest) ↔ p a = false := by
  simp [EndsRun]

/-- The items with the property are all that is taken from the front. -/
theorem takeWhile_run_append (hxs : ∀ a ∈ xs, p a) (h : EndsRun p rest) :
    (xs ++ rest).takeWhile p = xs := by
  have hrest : rest.takeWhile p = [] := by
    cases rest with
    | nil => rfl
    | cons a rest => exact List.takeWhile_cons_of_neg (by simp [endsRun_cons.1 h])
  rw [List.takeWhile_append_of_pos hxs, hrest, List.append_nil]

/-- Where a run ends, it can be told from what follows. -/
theorem run_append_inj (hxs : ∀ a ∈ xs, p a) (hys : ∀ a ∈ ys, p a) (h : EndsRun p rest)
    (h' : EndsRun p rest') : xs ++ rest = ys ++ rest' ↔ xs = ys ∧ rest = rest' := by
  constructor
  · intro he
    have hrun : xs = ys := by
      rw [← takeWhile_run_append hxs h, he, takeWhile_run_append hys h']
    exact ⟨hrun, List.append_cancel_left (hrun ▸ he)⟩
  · rintro ⟨rfl, rfl⟩
    rfl

end Runs

section Numbers

variable {m n : ℕ} {rest rest' : List Char}

theorem toDigits_inj : Nat.toDigits 10 m = Nat.toDigits 10 n ↔ m = n := by
  refine ⟨fun h => ?_, congrArg _⟩
  rw [← Nat.ofDigitChars_toDigits (by decide : 1 < 10) (Nat.le_refl 10) (n := m), h,
    Nat.ofDigitChars_toDigits (by decide) (Nat.le_refl 10)]

/-- A number is told from what follows, if that does not go on with a digit. -/
theorem digits_append_inj (h : EndsRun Char.isDigit rest) (h' : EndsRun Char.isDigit rest') :
    Nat.toDigits 10 m ++ rest = Nat.toDigits 10 n ++ rest' ↔ m = n ∧ rest = rest' := by
  have hdigits (k : ℕ) : ∀ c ∈ Nat.toDigits 10 k, c.isDigit := fun _ =>
    Nat.isDigit_of_mem_toDigits (by decide) (Nat.le_refl 10)
  rw [run_append_inj (hdigits m) (hdigits n) h h', toDigits_inj]

end Numbers

/-! ### Joined pieces -/

section Joined

variable {α : Type*} {a : α} {sep : List α} {xss yss : List (List α)}

/-- With one more separator in front, a joined text is a run of pieces behind separators. -/
theorem append_intercalate (sep : List α) (h : xss ≠ []) :
    sep ++ sep.intercalate xss = xss.flatMap (sep ++ ·) := by
  induction xss with
  | nil => exact absurd rfl h
  | cons xs xss ih =>
    cases xss with
    | nil => simp
    | cons ys yss =>
      rw [List.intercalate_cons_cons, List.flatMap_cons, ← ih (List.cons_ne_nil _ _)]
      simp only [List.append_assoc]

theorem intercalate_ne_nil (h : xss ≠ []) (hx : ∀ xs ∈ xss, xs ≠ []) :
    sep.intercalate xss ≠ [] := by
  obtain ⟨xs, xss, rfl⟩ := List.exists_cons_of_ne_nil h
  have hxs : xs ≠ [] := hx xs List.mem_cons_self
  cases xss <;> simp [List.intercalate_cons_cons, hxs]

variable [DecidableEq α]

/-- The separator, or the end, shows where a piece ends. -/
theorem piece_append_inj {xs ys : List α} (hx : a ∉ xs) (hy : a ∉ ys) :
    xs ++ xss.flatMap (a :: sep ++ ·) = ys ++ yss.flatMap (a :: sep ++ ·) ↔
      xs = ys ∧ xss.flatMap (a :: sep ++ ·) = yss.flatMap (a :: sep ++ ·) := by
  have hends (zss : List (List α)) : EndsRun (· ≠ a) (zss.flatMap (a :: sep ++ ·)) := by
    cases zss <;> simp
  have hrun {zs : List α} (hz : a ∉ zs) : ∀ z ∈ zs, decide (z ≠ a) := fun z hmem =>
    decide_eq_true fun he => hz (he ▸ hmem)
  exact run_append_inj (hrun hx) (hrun hy) (hends xss) (hends yss)

/-- Pieces behind separators are told from their text. -/
theorem separated_inj (hx : ∀ xs ∈ xss, a ∉ xs) (hy : ∀ ys ∈ yss, a ∉ ys) :
    xss.flatMap (a :: sep ++ ·) = yss.flatMap (a :: sep ++ ·) ↔ xss = yss := by
  refine ⟨fun h => ?_, congrArg _⟩
  induction xss generalizing yss with
  | nil =>
    cases yss with
    | nil => rfl
    | cons ys yss => simp at h
  | cons xs xss ih =>
    cases yss with
    | nil => simp at h
    | cons ys yss =>
      obtain ⟨hxs, hxss⟩ := List.forall_mem_cons.1 hx
      obtain ⟨hys, hyss⟩ := List.forall_mem_cons.1 hy
      -- behind the first separator, the next one shows where the first piece ends
      rw [List.flatMap_cons, List.flatMap_cons, List.append_assoc, List.append_assoc,
        List.append_cancel_left_eq, piece_append_inj hxs hys] at h
      rw [h.1, ih hxss hyss h.2]

/-- The last separator shows where the last piece begins. -/
theorem append_last_piece_inj {xs ys front front' : List α} (hx : a ∉ xs) (hy : a ∉ ys) :
    front ++ a :: xs = front' ++ a :: ys ↔ front = front' ∧ xs = ys := by
  have hrun {zs : List α} (hz : a ∉ zs) : ∀ z ∈ zs.reverse, decide (z ≠ a) := fun z hmem =>
    decide_eq_true fun he => hz (he ▸ List.mem_reverse.1 hmem)
  have hends (zs : List α) : EndsRun (· ≠ a) (a :: zs.reverse) := by simp
  rw [← List.reverse_inj, List.reverse_append, List.reverse_append, List.reverse_cons,
    List.reverse_cons, List.append_assoc, List.append_assoc, List.singleton_append,
    List.singleton_append, run_append_inj (hrun hx) (hrun hy) (hends front) (hends front'),
    List.cons_inj_right, List.reverse_inj, List.reverse_inj, and_comm]

/-- Pieces behind separators are told from what stands before them, whatever that is, if it is known
how many they are. -/
theorem append_separated_inj {front front' : List α} (hx : ∀ xs ∈ xss, a ∉ xs)
    (hy : ∀ ys ∈ yss, a ∉ ys) (hlength : xss.length = yss.length) :
    front ++ xss.flatMap (a :: ·) = front' ++ yss.flatMap (a :: ·) ↔
      front = front' ∧ xss = yss := by
  refine ⟨fun h => ?_, fun ⟨hfront, hpieces⟩ => by rw [hfront, hpieces]⟩
  -- take the pieces off at the right end, where the last separator is certain
  induction xss using List.reverseRecOn generalizing yss with
  | nil =>
    have hyss : yss = [] := List.length_eq_zero_iff.1 hlength.symm
    rw [hyss] at h
    exact ⟨by simpa using h, hyss.symm⟩
  | append_singleton xss xs ih =>
    rcases List.eq_nil_or_concat' yss with rfl | ⟨yss, ys, rfl⟩
    · simp at hlength
    · rw [List.flatMap_append, List.flatMap_append, List.flatMap_singleton, List.flatMap_singleton,
        ← List.append_assoc, ← List.append_assoc,
        append_last_piece_inj (hx xs (by simp)) (hy ys (by simp))] at h
      obtain ⟨hrest, rfl⟩ := h
      obtain ⟨hfront, rfl⟩ := ih (fun zs hz => hx zs (by simp [hz]))
        (fun zs hz => hy zs (by simp [hz])) (by simpa using hlength) hrest
      exact ⟨hfront, rfl⟩

/-- Pieces are told from the text in which they are joined, if none of them is empty or contains the
first character of the separator. -/
theorem intercalate_inj (hx : ∀ xs ∈ xss, xs ≠ [] ∧ a ∉ xs) (hy : ∀ ys ∈ yss, ys ≠ [] ∧ a ∉ ys) :
    (a :: sep).intercalate xss = (a :: sep).intercalate yss ↔ xss = yss := by
  refine ⟨fun h => ?_, congrArg _⟩
  by_cases hxss : xss = []
  · by_contra hne
    have hyss : yss ≠ [] := fun hyss => hne (hxss.trans hyss.symm)
    rw [hxss, List.intercalate_nil] at h
    exact intercalate_ne_nil hyss (fun ys hys => (hy ys hys).1) h.symm
  · have hyss : yss ≠ [] := by
      rintro rfl
      exact intercalate_ne_nil hxss (fun xs hxs => (hx xs hxs).1) h
    rw [← separated_inj (fun xs hxs => (hx xs hxs).2) (fun ys hys => (hy ys hys).2),
      ← append_intercalate (a :: sep) hxss, h, append_intercalate (a :: sep) hyss]

end Joined

end VirtualIsa
