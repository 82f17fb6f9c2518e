import VirtualIsa.Json
import VirtualIsa.Proofs.Text

/-!
# What a JSON text tells

The compact text of a value tells the value, with all its strings, lists and fields: no string can
imitate what follows it, as it ends at the first quote that is not escaped, and a number, which has
no end of its own, is always followed by a bracket or a comma.

* `SelfDelimiting f x`: the text that `f` gives to `x` tells `x`, and where it ends. Main statement:
  `listed_append_inj`, which puts such texts into a list;
* `Json.readString` reads back the inside of a string. Main statement: `Json.quoted_append_inj`, a
  string between quotes is told from what follows it;
* `Json.selfDelimiting_chars`, by induction on the value. Main statement:
  `Json.compact_eq_compact_iff`, values with one text are one value.
-/

namespace VirtualIsa

/-! ### Texts in a list -/

section Listed

variable {α : Type*} {f : α → List Char} {close : Char} {xs ys : List α} {rest rest' : List Char}

/-- The text of `x` tells `x` from every other value, and where it ends, if no digit follows. -/
def SelfDelimiting (f : α → List Char) (x : α) : Prop :=
  ∀ (y : α) (rest rest' : List Char), EndsRun Char.isDigit rest → EndsRun Char.isDigit rest' →
    f x ++ rest = f y ++ rest' → x = y ∧ rest = rest'

/-- Texts with commas between them. -/
def listed (f : α → List Char) : List α → List Char
  | [] => []
  | x :: xs => f x ++ xs.flatMap fun y => ',' :: f y

theorem endsRun_continued (hclose : close.isDigit = false) :
    EndsRun Char.isDigit ((xs.flatMap fun y => ',' :: f y) ++ close :: rest) := by
  cases xs <;> simp [hclose]

/-- After the first text of a list, commas and the closing character tell how the list goes on. -/
theorem continued_append_inj (hcomma : close ≠ ',') (hclose : close.isDigit = false)
    (hxs : ∀ x ∈ xs, SelfDelimiting f x)
    (h : (xs.flatMap fun y => ',' :: f y) ++ close :: rest =
      (ys.flatMap fun y => ',' :: f y) ++ close :: rest') : xs = ys ∧ rest = rest' := by
  induction xs generalizing ys with
  | nil =>
    cases ys with
    | nil => simpa using h
    | cons y ys => simp [hcomma] at h
  | cons x xs ih =>
    cases ys with
    | nil => simp [hcomma.symm] at h
    | cons y ys =>
      simp only [List.flatMap_cons, List.cons_append, List.cons.injEq, true_and,
        List.append_assoc] at h
      obtain ⟨rfl, hnext⟩ := hxs x List.mem_cons_self y _ _ (endsRun_continued hclose)
        (endsRun_continued hclose) h
      obtain ⟨rfl, hrest⟩ := ih (fun z hz => hxs z (List.mem_cons_of_mem _ hz)) hnext
      exact ⟨rfl, hrest⟩

/-- A list of texts tells its items, if no text begins with the closing character. -/
theorem listed_append_inj (hcomma : close ≠ ',') (hclose : close.isDigit = false)
    (hopen : ∀ y, ∃ c ∈ (f y).head?, c ≠ close) (hxs : ∀ x ∈ xs, SelfDelimiting f x)
    (h : listed f xs ++ close :: rest = listed f ys ++ close :: rest') :
    xs = ys ∧ rest = rest' := by
  have hstart (y : α) (t t' : List Char) : f y ++ t ≠ close :: t' := by
    intro he
    obtain ⟨c, hc, hne⟩ := hopen y
    obtain ⟨cs, hcs⟩ := List.head?_eq_some_iff.1 hc
    rw [hcs, List.cons_append, List.cons.injEq] at he
    exact hne he.1
  cases xs with
  | nil =>
    cases ys with
    | nil => simpa [listed] using h
    | cons y ys =>
      rw [listed, listed, List.append_assoc] at h
      exact absurd h.symm (hstart y _ _)
  | cons x xs =>
    cases ys with
    | nil =>
      rw [listed, listed, List.append_assoc] at h
      exact absurd h (hstart x _ _)
    | cons y ys => exact continued_append_inj hcomma hclose hxs (congrArg (',' :: ·) h)

end Listed

namespace Json

/-! ### Strings -/

section Strings

variable {s t : String} {rest rest' : List Char}

/-- The value of a hexadecimal digit. -/
def hexValue (c : Char) : ℕ := if c.isDigit then c.toNat - 48 else c.toNat - 87

/-- The character that a character behind a backslash stands for. -/
def unescape : Char → Char
  | 'b' => '\x08'
  | 't' => '\t'
  | 'n' => '\n'
  | 'f' => '\x0c'
  | 'r' => '\r'
  | c => c

/-- The inside of a string, up to the first quote that is not escaped, and what follows the
quote. -/
def readString : List Char → Option (List Char × List Char)
  | [] => none
  | '"' :: rest => some ([], rest)
  | '\\' :: 'u' :: _ :: _ :: hi :: lo :: rest =>
    (readString rest).map (.map (Char.ofNat (16 * hexValue hi + hexValue lo) :: ·) id)
  | '\\' :: c :: rest => (readString rest).map (.map (unescape c :: ·) id)
  | c :: rest => (readString rest).map (.map (c :: ·) id)

theorem hexValue_digitChar : ∀ n < 16, hexValue (Nat.digitChar n) = n := by decide

/-- A character is read back from what stands for it. -/
theorem readString_escape_append (c : Char) (rest : List Char) :
    readString (escape c ++ rest) = (readString rest).map (.map (c :: ·) id) := by
  unfold escape
  split
  case h_8 hquote hback _ _ _ _ _ =>
    split
    next hcontrol =>
      have hhi := hexValue_digitChar (c.toNat / 16) (by omega)
      have hlo := hexValue_digitChar (c.toNat % 16) (by omega)
      simp only [List.cons_append, List.nil_append, readString, hhi, hlo, Nat.div_add_mod,
        Char.ofNat_toNat]
    next =>
      rw [List.singleton_append, readString]
      · exact hquote
      · exact fun _ _ _ _ _ he => absurd he hback
      · exact fun _ _ he => absurd he hback
  all_goals simp [readString, unescape]

theorem readString_flatMap_escape (cs rest : List Char) :
    readString (cs.flatMap escape ++ '"' :: rest) = some (cs, rest) := by
  induction cs with
  | nil => simp [readString]
  | cons c cs ih =>
    rw [List.flatMap_cons, List.append_assoc, readString_escape_append, ih]
    rfl

/-- A string between quotes is told from what follows it. -/
theorem quoted_append_inj :
    quoted s ++ rest = quoted t ++ rest' ↔ s = t ∧ rest = rest' := by
  constructor
  · intro h
    have hinside : s.toList.flatMap escape ++ '"' :: rest =
        t.toList.flatMap escape ++ '"' :: rest' := by
      simpa [quoted] using h
    have hread := congrArg readString hinside
    rw [readString_flatMap_escape, readString_flatMap_escape, Option.some.injEq, Prod.mk.injEq]
      at hread
    exact ⟨String.toList_inj.1 hread.1, hread.2⟩
  · rintro ⟨rfl, rfl⟩
    rfl

/-- A string that looks like the end of itself stays between its quotes. -/
example : (str "nop\",\"size\":[").compact = "\"nop\\\",\\\"size\\\":[\"" := by decide

end Strings

/-! ### Values -/

section Values

variable {j k : Json} {rest rest' : List Char}

/-- Induction on a value, with its items and the values of its fields below it. -/
@[elab_as_elim, induction_eliminator]
theorem induction {motive : Json → Prop} (null : motive .null)
    (bool : ∀ value, motive (.bool value)) (num : ∀ value, motive (.num value))
    (str : ∀ value, motive (.str value))
    (arr : ∀ items, (∀ j ∈ items, motive j) → motive (.arr items))
    (obj : ∀ fields, (∀ field ∈ fields, motive field.2) → motive (.obj fields)) (j : Json) :
    motive j :=
  @Json.rec motive (fun items => ∀ j ∈ items, motive j)
    (fun fields => ∀ field ∈ fields, motive field.2) (fun field => motive field.2)
    null bool num str arr obj nofun (fun _ _ hj hitems => List.forall_mem_cons.2 ⟨hj, hitems⟩)
    nofun (fun _ _ hfield hfields => List.forall_mem_cons.2 ⟨hfield, hfields⟩) (fun _ _ hj => hj) j

theorem itemChars_eq_listed (items : List Json) : itemChars items = listed chars items := by
  induction items with
  | nil => simp [itemChars, listed]
  | cons j items ih => cases items <;> simp_all [itemChars, listed]

/-- The text of a field. -/
def fieldText (field : String × Json) : List Char := quoted field.1 ++ ':' :: chars field.2

theorem fieldChars_eq_listed (fields : List (String × Json)) :
    fieldChars fields = listed fieldText fields := by
  induction fields with
  | nil => simp [fieldChars, listed]
  | cons field fields ih => cases fields <;> simp_all [fieldChars, listed, fieldText]

/-- The place of the constructor whose values begin with a character. -/
def opened (c : Char) : ℕ :=
  if c = 'n' then 0
  else if c = 't' ∨ c = 'f' then 1
  else if c.isDigit then 2
  else if c = '"' then 3
  else if c = '[' then 4
  else if c = '\x7b' then 5
  else 6

/-- The first character of a text tells the constructor. -/
theorem exists_chars_eq_cons (j : Json) : ∃ c cs, j.chars = c :: cs ∧ opened c = j.ctorIdx := by
  cases j with
  | null => exact ⟨_, _, rfl, rfl⟩
  | bool value => cases value <;> exact ⟨_, _, rfl, rfl⟩
  | num n =>
    obtain ⟨c, cs, hc⟩ := List.exists_cons_of_ne_nil (Nat.toDigits_ne_nil (n := n) (b := 10))
    have hdigit : c.isDigit :=
      Nat.isDigit_of_mem_toDigits (by decide) (Nat.le_refl 10) (hc ▸ List.mem_cons_self)
    refine ⟨c, cs, by rw [chars, hc], ?_⟩
    have hn : c ≠ 'n' := by rintro rfl; exact absurd hdigit (by decide)
    have htf : ¬ (c = 't' ∨ c = 'f') := by rintro (rfl | rfl) <;> exact absurd hdigit (by decide)
    rw [opened, if_neg hn, if_neg htf, if_pos hdigit]
    rfl
  | str s => exact ⟨_, _, rfl, rfl⟩
  | arr items => exact ⟨_, _, rfl, rfl⟩
  | obj fields => exact ⟨_, _, rfl, rfl⟩

theorem ctorIdx_eq_of_chars (h : j.chars ++ rest = k.chars ++ rest') : j.ctorIdx = k.ctorIdx := by
  obtain ⟨c, cs, hc, hj⟩ := j.exists_chars_eq_cons
  obtain ⟨d, ds, hd, hk⟩ := k.exists_chars_eq_cons
  rw [hc, hd, List.cons_append, List.cons_append, List.cons.injEq] at h
  rw [← hj, ← hk, h.1]

/-- No text of a value begins like the end of a list. -/
theorem exists_head?_chars_ne (j : Json) : ∃ c ∈ j.chars.head?, c ≠ ']' := by
  obtain ⟨c, cs, hc, hj⟩ := j.exists_chars_eq_cons
  refine ⟨c, by simp [hc], ?_⟩
  rintro rfl
  have hclose : opened ']' = 6 := by decide
  rw [hclose] at hj
  cases j <;> cases hj

theorem selfDelimiting_fieldText {field : String × Json} (h : SelfDelimiting chars field.2) :
    SelfDelimiting fieldText field := by
  intro field' rest rest' hr hr' he
  simp only [fieldText, List.append_assoc, List.cons_append] at he
  obtain ⟨hname, hvalue⟩ := quoted_append_inj.1 he
  obtain ⟨hj, hrest⟩ := h field'.2 rest rest' hr hr' (List.cons.inj hvalue).2
  exact ⟨Prod.ext hname hj, hrest⟩

/-- The text of a value tells the value, and where it ends. -/
theorem selfDelimiting_chars (j : Json) : SelfDelimiting chars j := by
  induction j with
  | null =>
    intro k rest rest' _ _ h
    cases k with
    | null => exact ⟨rfl, List.append_cancel_left h⟩
    | _ => cases ctorIdx_eq_of_chars h
  | bool value =>
    intro k rest rest' _ _ h
    cases k with
    | bool value' => cases value <;> cases value' <;> simp_all [chars]
    | _ => cases ctorIdx_eq_of_chars h
  | num n =>
    intro k rest rest' hr hr' h
    cases k with
    | num m =>
      rw [chars, chars, digits_append_inj hr hr'] at h
      exact ⟨congrArg num h.1, h.2⟩
    | _ => cases ctorIdx_eq_of_chars h
  | str s =>
    intro k rest rest' _ _ h
    cases k with
    | str t =>
      rw [chars, chars, quoted_append_inj] at h
      exact ⟨congrArg str h.1, h.2⟩
    | _ => cases ctorIdx_eq_of_chars h
  | arr items ih =>
    intro k rest rest' _ _ h
    cases k with
    | arr items' =>
      simp only [chars, List.cons_append, List.append_assoc, List.cons.injEq, true_and,
        List.nil_append, itemChars_eq_listed] at h
      obtain ⟨rfl, hrest⟩ := listed_append_inj (by decide) (by decide)
        exists_head?_chars_ne ih h
      exact ⟨rfl, hrest⟩
    | _ => cases ctorIdx_eq_of_chars h
  | obj fields ih =>
    intro k rest rest' _ _ h
    cases k with
    | obj fields' =>
      simp only [chars, List.cons_append, List.append_assoc, List.cons.injEq, true_and,
        List.nil_append, fieldChars_eq_listed] at h
      obtain ⟨rfl, hrest⟩ := listed_append_inj (by decide) (by decide)
        (fun _ => ⟨'"', rfl, by decide⟩)
        (fun field hfield => selfDelimiting_fieldText (ih field hfield)) h
      exact ⟨rfl, hrest⟩
    | _ => cases ctorIdx_eq_of_chars h

/-- Values with one text are one value. -/
theorem compact_eq_compact_iff : j.compact = k.compact ↔ j = k := by
  refine ⟨fun h => ?_, congrArg compact⟩
  have hchars : j.chars ++ [] = k.chars ++ [] := by rw [compact_inj.1 h]
  exact (j.selfDelimiting_chars k [] [] endsRun_nil endsRun_nil hchars).1

end Values

end Json

end VirtualIsa
