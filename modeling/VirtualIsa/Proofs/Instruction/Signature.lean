import VirtualIsa.Instruction.Basic
import VirtualIsa.Proofs.Text

/-!
# What a signature tells

The signature of an instruction is its name and then a word for each operand, with a comma at every
word but the last. Words stand behind blanks and contain none. A name may contain blanks, though,
and can look as if there were operands in it. So a signature is read from the right, if it is known
how many operands there are, or from the left, if the name has no blank.

* `Instruction.operandWords` and `Instruction.toList_signature`, the pieces of a signature;
* `Instruction.operandWords_inj`, the words tell the operands. Main statement:
  `Instruction.signature_tells_name_and_operands`.
-/

namespace VirtualIsa

namespace Instruction

variable {i j : Instruction} {xs ys : List Access}

/-! ### The pieces of a signature -/

/-- The words for the operands. All but the last end in a comma. -/
def operandWords : List Access → List (List Char)
  | [] => []
  | [x] => [x.name.toList]
  | x :: y :: xs => (x.name.toList ++ [',']) :: operandWords (y :: xs)

@[simp] theorem length_operandWords (xs : List Access) :
    (operandWords xs).length = xs.length := by
  induction xs using operandWords.induct with
  | case1 => rfl
  | case2 x => rfl
  | case3 x y xs ih => simp [operandWords, ih]

theorem blank_not_mem_operandWords (xs : List Access) : ∀ w ∈ operandWords xs, ' ' ∉ w := by
  have hname (x : Access) : ' ' ∉ x.name.toList := by cases x <;> decide
  induction xs using operandWords.induct with
  | case1 => simp [operandWords]
  | case2 x => simpa [operandWords] using hname x
  | case3 x y xs ih => simpa [operandWords, hname x] using ih

/-- The words, last comma and all, tell the operands. -/
theorem operandWords_inj : operandWords xs = operandWords ys ↔ xs = ys := by
  refine ⟨fun h => ?_, congrArg _⟩
  have hlength : xs.length = ys.length := by simpa using congrArg List.length h
  induction xs using operandWords.induct generalizing ys with
  | case1 => exact (List.length_eq_zero_iff.1 hlength.symm).symm
  | case2 x =>
    obtain ⟨y, rfl⟩ := List.length_eq_one_iff.1 hlength.symm
    simpa [operandWords, String.toList_inj, Access.name_inj] using h
  | case3 x y xs ih =>
    rcases ys with _ | ⟨x', _ | ⟨y', ys⟩⟩
    · simp at hlength
    · simp at hlength
    · rw [operandWords, operandWords, List.cons.injEq, List.append_cancel_right_eq,
        String.toList_inj, Access.name_inj] at h
      rw [h.1, ih h.2 (by simpa using hlength)]

/-- With a blank in front, the text of the operands is a run of words behind blanks. -/
theorem blank_append_operandText (x : Access) (xs : List Access) :
    ' ' :: (operandText (x :: xs)).toList = (operandWords (x :: xs)).flatMap (' ' :: ·) := by
  induction xs generalizing x with
  | nil => simp [operandText, operandWords]
  | cons y xs ih =>
    rw [operandWords, List.flatMap_cons, ← ih]
    simp [operandText, String.toList_intercalate]

theorem toList_signature (i : Instruction) :
    i.signature.toList = i.name.toList ++ (operandWords i.operands).flatMap (' ' :: ·) := by
  unfold signature
  cases h : i.operands with
  | nil => simp [operandWords]
  | cons x xs => simp [← blank_append_operandText]

theorem signature_inj : i.signature = j.signature ↔
    i.name.toList ++ (operandWords i.operands).flatMap (' ' :: ·) =
      j.name.toList ++ (operandWords j.operands).flatMap (' ' :: ·) := by
  rw [← String.toList_inj, toList_signature, toList_signature]

/-- **A signature tells the name and the operands** of two instructions if they have one number of
operands, whatever their names are, or if there is no blank in their names. -/
theorem signature_tells_name_and_operands (i j : Instruction)
    (h : i.operandCount = j.operandCount ∨ ' ' ∉ i.name.toList ∧ ' ' ∉ j.name.toList) :
    i.signature = j.signature ↔ i.name = j.name ∧ i.operands = j.operands := by
  have hi : ∀ w ∈ operandWords i.operands, ' ' ∉ w := blank_not_mem_operandWords i.operands
  have hj : ∀ w ∈ operandWords j.operands, ' ' ∉ w := blank_not_mem_operandWords j.operands
  rw [signature_inj]
  rcases h with hcount | ⟨hname, hname'⟩
  · have hlength : (operandWords i.operands).length = (operandWords j.operands).length := by
      rwa [length_operandWords, length_operandWords]
    rw [append_separated_inj hi hj hlength, String.toList_inj, operandWords_inj]
  · -- the blank is the whole of the separator
    show _ ++ List.flatMap (' ' :: [] ++ ·) _ = _ ++ List.flatMap (' ' :: [] ++ ·) _ ↔ _
    rw [piece_append_inj hname hname', separated_inj hi hj, String.toList_inj, operandWords_inj]

/-- Two names that look like a name with operands, with two more operands each; and two names
without a blank, with one operand and with two. -/
theorem signature_of_names_with_operands :
    ∃ a b c d : Instruction,
      a = ⟨"mov write, read_imm", [.write, .readReg], none, false, none, .empty, none⟩ ∧
      b = ⟨"mov write, read_imm, write,", [.readReg, .write], none, true, none, .empty, none⟩ ∧
      c = ⟨"mov,write", [.write], none, false, none, .empty, none⟩ ∧
      d = ⟨"mov,", [.write, .write], none, false, none, .empty, none⟩ ∧
      a.operandCount = b.operandCount ∧ a.signature ≠ b.signature ∧
      c.operandCount ≠ d.operandCount ∧ ' ' ∉ c.name.toList ∧ ' ' ∉ d.name.toList ∧
      c.signature ≠ d.signature := by
  refine ⟨_, _, _, _, rfl, rfl, rfl, rfl, rfl, fun h => ?_, by decide, by decide, by decide,
    fun h => ?_⟩
  · obtain ⟨hname, -⟩ := (signature_tells_name_and_operands _ _ (.inl (by rfl))).1 h
    simp at hname
  · obtain ⟨hname, -⟩ :=
      (signature_tells_name_and_operands _ _ (.inr ⟨by decide, by decide⟩)).1 h
    simp at hname

/-- Neither condition holds of these two, and their signatures are the same. -/
example : (⟨"mov write,", [.readImm], none, false, none, .empty, none⟩ : Instruction).signature =
    (⟨"mov", [.write, .readImm], none, false, none, .empty, none⟩ : Instruction).signature := by
  decide

end Instruction

end VirtualIsa
