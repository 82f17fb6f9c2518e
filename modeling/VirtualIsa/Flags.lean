import VirtualIsa.Json

/-!
# Flags of a register slot

A set of flags is one byte. Six of its bits are flags with a name; the two others have
no meaning here but are kept, and two sets that differ in them are different sets.

* `Flag`, the named flags, each with its bit;
* `Flags` with membership `f ∈ s`, the operations on sets, and the laws that express
  membership in a result by membership in the operands;
* `Flags.text`: the names of the flags in the set, in bit order, and last the value of
  the unnamed bits, with bars between.
-/

namespace VirtualIsa

/-- A property of a register slot. -/
inductive Flag where
  | physical
  | blockLocal
  | statusFlags
  | stackPointer
  | volatile
  | readOnly
  deriving DecidableEq

namespace Flag

/-- Every flag, in bit order. -/
def all : List Flag := [physical, blockLocal, statusFlags, stackPointer, volatile, readOnly]

/-- The position of a flag's bit. -/
def index (f : Flag) : Nat := f.ctorIdx

/-- The byte that has only the flag's bit. -/
def bit (f : Flag) : UInt8 := 1 <<< UInt8.ofNat f.index

/-- The name of a flag in dumps. -/
def name : Flag → String
  | physical => "PHYSICAL"
  | blockLocal => "LOCAL"
  | statusFlags => "FLAGS"
  | stackPointer => "STACK_POINTER"
  | volatile => "VOLATILE"
  | readOnly => "READ_ONLY"

theorem mem_all (f : Flag) : f ∈ all := by
  cases f <;> decide

theorem index_inj {f g : Flag} : f.index = g.index ↔ f = g := by
  cases f <;> cases g <;> decide

theorem getLsbD_bit (f : Flag) (i : Nat) : f.bit.toBitVec.getLsbD i = decide (i = f.index) := by
  have h : f.bit.toBitVec = BitVec.twoPow 8 f.index := by cases f <;> decide
  have hf : f.index < 8 := by cases f <;> decide
  rw [h, BitVec.getLsbD_twoPow]
  simp [hf, eq_comm]

end Flag

/-- A set of flags, as the byte of their bits. -/
@[ext] structure Flags where
  bits : UInt8
  deriving DecidableEq

namespace Flags

instance : Membership Flag Flags := ⟨fun s f => s.bits.toBitVec.getLsbD f.index = true⟩

theorem mem_def {f : Flag} {s : Flags} : f ∈ s ↔ s.bits.toBitVec.getLsbD f.index = true := Iff.rfl

instance (f : Flag) (s : Flags) : Decidable (f ∈ s) := decidable_of_iff _ mem_def.symm

instance : Ord Flags := ⟨compareOn bits⟩

instance : Std.TransOrd Flags := inferInstanceAs (Std.TransCmp (compareOn bits))

theorem compare_eq_iff {s t : Flags} : compare s t = .eq ↔ s = t := by
  change compare s.bits t.bits = .eq ↔ _
  simp [Flags.ext_iff]

instance : Std.LawfulEqOrd Flags := ⟨compare_eq_iff.1⟩

/-! ### Operations -/

instance : EmptyCollection Flags := ⟨⟨0⟩⟩

instance : Union Flags := ⟨fun s t => ⟨s.bits ||| t.bits⟩⟩

instance : Inter Flags := ⟨fun s t => ⟨s.bits &&& t.bits⟩⟩

instance : SDiff Flags := ⟨fun s t => ⟨s.bits &&& ~~~t.bits⟩⟩

/-- The bits in exactly one of two sets. -/
def symmDiff (s t : Flags) : Flags := ⟨s.bits ^^^ t.bits⟩

/-- The set of the given flags. -/
def ofList (fs : List Flag) : Flags := fs.foldr (fun f s => ⟨f.bit⟩ ∪ s) ∅

/-- The set of all named flags. -/
def named : Flags := ofList Flag.all

theorem named_eq : named = ⟨0x3f⟩ := by decide

/-- The named flags of a set. -/
def truncate (s : Flags) : Flags := s ∩ named

/-- The named flags that are not in a set. -/
def complement (s : Flags) : Flags := named \ s

/-- The set with the given bits, if each of them is the bit of a flag. -/
def ofBits? (bits : UInt8) : Option Flags :=
  if truncate ⟨bits⟩ = ⟨bits⟩ then some ⟨bits⟩ else none

/-- No bit is set. -/
def isEmpty (s : Flags) : Bool := s = ∅

/-- Every bit of `t` is set in `s`. -/
def contains (s t : Flags) : Bool := s ∩ t = t

/-- Some bit is set in both. -/
def intersects (s t : Flags) : Bool := !(s ∩ t).isEmpty

/-- Every named flag is in the set. -/
def isAll (s : Flags) : Bool := s.contains named

/-- The flags of a set, in bit order. -/
def toList (s : Flags) : List Flag := Flag.all.filter (· ∈ s)

@[simp] theorem not_mem_empty (f : Flag) : f ∉ (∅ : Flags) := by
  simp [mem_def, EmptyCollection.emptyCollection]

@[simp] theorem mem_union {f : Flag} {s t : Flags} : f ∈ s ∪ t ↔ f ∈ s ∨ f ∈ t := by
  simp [mem_def, Union.union]

@[simp] theorem mem_inter {f : Flag} {s t : Flags} : f ∈ s ∩ t ↔ f ∈ s ∧ f ∈ t := by
  simp [mem_def, Inter.inter]

@[simp] theorem mem_ofList {f : Flag} {fs : List Flag} : f ∈ ofList fs ↔ f ∈ fs := by
  induction fs with
  | nil => simp [ofList]
  | cons g fs ih =>
    have hg : f ∈ (⟨g.bit⟩ : Flags) ↔ f = g := by simp [mem_def, Flag.getLsbD_bit, Flag.index_inj]
    rw [show ofList (g :: fs) = ⟨g.bit⟩ ∪ ofList fs from rfl, mem_union, hg, ih, List.mem_cons]

@[simp] theorem mem_named (f : Flag) : f ∈ named := by
  simp [named, Flag.mem_all]

@[simp] theorem mem_truncate {f : Flag} {s : Flags} : f ∈ s.truncate ↔ f ∈ s := by
  simp [truncate]

@[simp] theorem mem_sdiff {f : Flag} {s t : Flags} : f ∈ s \ t ↔ f ∈ s ∧ f ∉ t := by
  have hf : f.index < 8 := by cases f <;> decide
  simp [mem_def, SDiff.sdiff, hf]

@[simp] theorem mem_symmDiff {f : Flag} {s t : Flags} :
    f ∈ s.symmDiff t ↔ ¬ (f ∈ s ↔ f ∈ t) := by
  simp [mem_def, symmDiff]

@[simp] theorem mem_complement {f : Flag} {s : Flags} : f ∈ s.complement ↔ f ∉ s := by
  simp [complement]

@[simp] theorem mem_toList {f : Flag} {s : Flags} : f ∈ s.toList ↔ f ∈ s := by
  simp [toList, Flag.mem_all]

/-! ### Text -/

/-- The bits of a set that belong to no flag. -/
def unnamed (s : Flags) : Flags := s \ named

/-- The items of the text of a set: a name for each flag, then the unnamed bits if there are any. -/
def items (s : Flags) : List String :=
  s.toList.map Flag.name ++
    if s.unnamed.isEmpty then []
    else ["0x" ++ String.ofList (Nat.toDigits 16 s.unnamed.bits.toNat)]

/-- The text of a set. -/
def text (s : Flags) : String := " | ".intercalate s.items

/-- The dump of a set. -/
def toJson (s : Flags) : Json := .str s.text

end Flags

end VirtualIsa
