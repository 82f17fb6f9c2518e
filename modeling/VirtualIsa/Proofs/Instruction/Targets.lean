import Mathlib.Data.List.Nodup
import VirtualIsa.Branch

/-!
# Branches sorted by kind

The targets of an instruction are its branches in two lists. Sorting only forgets how the
kinds were interleaved.

* `Targets.perm_ofList`: the two lists together hold the operand of every branch, once for
  each time that it occurs;
* `Targets.find?_eq_virtual_iff`, `Targets.find?_eq_native_iff`: what an operand answers says
  in which list it is. The lists are searched one after the other, and only because no operand
  is in both does the order not matter.
-/

namespace VirtualIsa

namespace Targets

variable {ts : Targets} {bs : List BranchTarget} {i : ℕ}

/-! ### Sorting -/

/-- No operand of a branch is lost or invented. -/
theorem perm_ofList (bs : List BranchTarget) :
    ((ofList bs).virtual ++ (ofList bs).native).Perm (bs.map (·.operand)) := by
  induction bs with
  | nil => exact .nil
  | cons t bs ih =>
    cases t with
    | virtual k => exact ih.cons k
    | native k => exact List.perm_middle.trans (ih.cons k)

theorem nodup_append_ofList (h : (bs.map (·.operand)).Nodup) :
    ((ofList bs).virtual ++ (ofList bs).native).Nodup :=
  (perm_ofList bs).nodup_iff.2 h

/-! ### The target that an operand holds -/

theorem find?_eq_none_iff : ts.find? i = none ↔ i ∉ ts.virtual ∧ i ∉ ts.native := by
  rw [← Option.not_isSome_iff_eq_none, isSome_find?_iff, mentions_iff, not_or]

theorem find?_eq_virtual_iff : ts.find? i = some (.virtual i) ↔ i ∈ ts.virtual := by
  unfold find?
  split_ifs with hv hn
  · simpa using hv
  · simpa using hv
  · simpa using hv

theorem find?_eq_native_iff (h : ∀ k ∈ ts.virtual, k ∉ ts.native) :
    ts.find? i = some (.native i) ↔ i ∈ ts.native := by
  unfold find?
  split_ifs with hv hn
  · simpa using h i (by simpa using hv)
  · simpa using hn
  · simpa using hn

end Targets

end VirtualIsa
