import Std.Data.HashMap
import VirtualIsa.Register.Naming

/-!
# Tables of register names

A machine has names of its own for its physical registers, and often further names for
some of their ranges, such as `rax`, `eax` and `ah`. A table holds both kinds of name.

* `NameTable` with its entries; a later entry replaces an earlier one for the same
  register or the same range of it;
* `NameTable.naming`: a name for exactly the range asked for stands alone, a name of the
  register gets the suffix, and what the table does not name is numbered. Virtual
  registers are never looked up.
-/

namespace VirtualIsa

/-- Names for physical registers, by id, and for ranges of them. -/
structure NameTable where
  registers : Std.HashMap UInt64 String
  views : Std.HashMap (UInt64 × BitRange) String

namespace NameTable

/-- A name for a register or for a range of one. -/
inductive Entry where
  | register (id : UInt64) (name : String)
  | view (id : UInt64) (range : BitRange) (name : String)
  deriving DecidableEq

/-- The table without names. -/
def empty : NameTable := ⟨∅, ∅⟩

/-- A table with one more name. -/
def insert (t : NameTable) : Entry → NameTable
  | .register id name => { t with registers := t.registers.insert id name }
  | .view id range name => { t with views := t.views.insert (id, range) name }

/-- The table of the given names, entered from first to last. -/
def ofEntries (es : List Entry) : NameTable := es.foldl insert empty

/-- The table's name for what a query asks. -/
def name? (t : NameTable) (q : Query) : Option String :=
  match q.bank with
  | .virtual => none
  | .physical => t.views[(q.id, q.range)]? <|> t.registers[q.id]?.map (· ++ q.suffix)

/-- The names of a table, and numbers for the rest. -/
def naming (t : NameTable) : Naming := fun q => (t.name? q).getD (Naming.numbered q)

@[simp] theorem registers_insert_register (t : NameTable) (id i : UInt64) (name : String) :
    (t.insert (.register id name)).registers[i]? =
      if id = i then some name else t.registers[i]? := by
  simp [insert, Std.HashMap.getElem?_insert]

@[simp] theorem views_insert_register (t : NameTable) (id : UInt64) (name : String) :
    (t.insert (.register id name)).views = t.views := rfl

@[simp] theorem registers_insert_view (t : NameTable) (id : UInt64) (range : BitRange)
    (name : String) : (t.insert (.view id range name)).registers = t.registers := rfl

@[simp] theorem views_insert_view (t : NameTable) (id : UInt64) (range : BitRange)
    (name : String) (k : UInt64 × BitRange) :
    (t.insert (.view id range name)).views[k]? =
      if (id, range) = k then some name else t.views[k]? := by
  simp [insert, Std.HashMap.getElem?_insert]

end NameTable

end VirtualIsa
