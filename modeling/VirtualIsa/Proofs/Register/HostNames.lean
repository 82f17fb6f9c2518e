import Mathlib.Data.List.Induction
import VirtualIsa.Proofs.Register.Namings
import VirtualIsa.Register.NameTable

/-!
# Registers under the names of a table

A table is made by entering names one after another, and keeps two maps, one for registers and one
for ranges of them. What a register is called depends only on the names that were entered last for
its range and for its id.

* `NameTable.lastName?`, the name entered last for a key. Main statement:
  `NameTable.find?_ofEntries`, this is the name that the table has;
* `NameTable.SameByKey`: two lists of entries differ only in the order of entries for different
  keys. Main statement: `NameTable.render_ofEntries`, how every register is written under the names
  of a table.
-/

namespace VirtualIsa

namespace NameTable

/-- What an entry names: a register, or a range of one. -/
inductive Key where
  | register (id : UInt64)
  | view (id : UInt64) (range : BitRange)
  deriving DecidableEq

/-- The key is that of a register, and not of a range of one. -/
def Key.isRegister : Key → Bool
  | register _ => true
  | view _ _ => false

namespace Entry

/-- The key of an entry. -/
def key : Entry → Key
  | register id _ => .register id
  | view id range _ => .view id range

/-- The name in an entry. -/
def name : Entry → String
  | register _ name => name
  | view _ _ name => name

end Entry

variable {es es' : List Entry} {r : Register}

/-! ### The last name of a key -/

/-- The name that was entered last for a key. -/
def lastName? (es : List Entry) (k : Key) : Option String :=
  ((es.filter (·.key = k)).getLast?).map (·.name)

theorem lastName?_append (es fs : List Entry) (k : Key) :
    lastName? (es ++ fs) k = (lastName? fs k <|> lastName? es k) := by
  unfold lastName?
  rw [List.filter_append, List.getLast?_append]
  cases (fs.filter (·.key = k)).getLast? <;> simp

theorem lastName?_singleton (e : Entry) (k : Key) :
    lastName? [e] k = if e.key = k then some e.name else none := by
  by_cases h : e.key = k <;> simp [lastName?, h]

theorem lastName?_cons (e : Entry) (es : List Entry) (k : Key) :
    lastName? (e :: es) k = (lastName? es k <|> if e.key = k then some e.name else none) := by
  rw [← lastName?_singleton, ← lastName?_append, List.singleton_append]

/-- The name that a table has for a key. -/
def find? (t : NameTable) : Key → Option String
  | .register id => t.registers[id]?
  | .view id range => t.views[(id, range)]?

/-- An entry replaces the name for its key and leaves the others as they are. -/
theorem find?_insert (t : NameTable) (e : Entry) (k : Key) :
    (t.insert e).find? k = if e.key = k then some e.name else t.find? k := by
  cases e <;> cases k <;> simp [find?, Entry.key, Entry.name]

/-- A table has the name that was entered last. -/
theorem find?_ofEntries (es : List Entry) (k : Key) : (ofEntries es).find? k = lastName? es k := by
  induction es using List.reverseRecOn with
  | nil => cases k <;> simp [ofEntries, empty, find?, lastName?]
  | append_singleton es e ih =>
    have hstep : ofEntries (es ++ [e]) = (ofEntries es).insert e := by simp [ofEntries]
    rw [hstep, find?_insert, ih, lastName?_append, lastName?_singleton]
    split <;> simp

/-! ### Entries in another order -/

/-- The entries for each key are the same and in the same order. Only entries for different keys
may have changed places. -/
def SameByKey (es es' : List Entry) : Prop :=
  ∀ k, es.filter (·.key = k) = es'.filter (·.key = k)

theorem SameByKey.lastName?_eq (h : SameByKey es es') (k : Key) :
    lastName? es k = lastName? es' k := by
  rw [lastName?, lastName?, h k]

/-- The entries for some of the keys can be entered before all others. -/
theorem sameByKey_filter_append (p : Key → Bool) (es : List Entry) :
    SameByKey es (es.filter (p ·.key) ++ es.filter (!p ·.key)) := by
  intro k
  have hkey (q : Key → Bool) : (es.filter (q ·.key)).filter (·.key = k) =
      if q k then es.filter (·.key = k) else [] := by
    rw [List.filter_filter]
    by_cases hq : q k
    · rw [if_pos hq]
      refine List.filter_congr fun e _ => ?_
      by_cases he : e.key = k <;> simp [he, hq]
    · rw [if_neg hq]
      refine List.filter_eq_nil_iff.2 fun e _ => ?_
      by_cases he : e.key = k <;> simp [he, hq]
  rw [List.filter_append, hkey, hkey fun k => !p k]
  cases p k <;> simp

/-- Of two entries for one key the later one counts. -/
theorem lastName?_of_key_eq {xs ys zs : List Entry} {e e' : Entry} (h : e.key = e'.key) (k : Key) :
    lastName? (xs ++ e :: ys ++ e' :: zs) k = lastName? (xs ++ ys ++ e' :: zs) k := by
  simp only [lastName?_append, lastName?_cons, h]
  by_cases hk : e'.key = k <;> simp [hk]

/-! ### Rendering -/

theorem name?_ofEntries (es : List Entry) (q : Query) : (ofEntries es).name? q =
    match q.bank with
    | .virtual => none
    | .physical => lastName? es (.view q.id q.range) <|>
      (lastName? es (.register q.id)).map (· ++ q.suffix) := by
  unfold name?
  cases q.bank with
  | virtual => rfl
  | physical => rw [← find?_ofEntries, ← find?_ofEntries, find?, find?]

/-- A table names the physical registers that have no name of their own. -/
theorem render_naming_of_kind_ne (t : NameTable) (h : r.kind ≠ .bank .physical) :
    r.render t.naming = toString r := by
  refine Register.render_congr fun b hb => ?_
  cases b with
  | physical => exact absurd hb h
  | virtual => rfl

theorem kind_eq_physical_iff : r.kind = .bank .physical ↔
    ¬ (r.isStatusFlags ∨ r.isStackPointer ∨ r.isBlockLocal ∨ r.isVirtual) := by
  unfold Register.kind Register.isVirtual
  split_ifs <;> simp_all

/-- A table is asked for the last name of the range, and then for that of the register. -/
theorem render_naming_of_kind_eq (es : List Entry) (h : r.kind = .bank .physical) :
    r.render (ofEntries es).naming =
      match lastName? es (.view r.slot.id r.range), lastName? es (.register r.slot.id) with
      | some name, _ => r.marks ++ name
      | none, some name => r.marks ++ (name ++ r.range.suffix)
      | none, none => toString r := by
  have hasked (naming : Naming) : r.render naming = r.marks ++ naming (r.query .physical) :=
    Register.render_of_kind_eq_bank h naming
  have hname : (ofEntries es).name? (r.query .physical) =
      (lastName? es (.view r.slot.id r.range) <|>
        (lastName? es (.register r.slot.id)).map (· ++ r.range.suffix)) :=
    name?_ofEntries es _
  rw [hasked, naming, hname]
  cases lastName? es (.view r.slot.id r.range) with
  | some name => simp
  | none =>
    cases lastName? es (.register r.slot.id) with
    | some name => simp
    | none => exact (hasked .numbered).symm

/-- Tables with the same last names write every register alike. -/
theorem render_congr_of_lastName? (h : ∀ k, lastName? es k = lastName? es' k) (r : Register) :
    r.render (ofEntries es).naming = r.render (ofEntries es').naming := by
  by_cases hk : r.kind = .bank .physical
  · rw [render_naming_of_kind_eq es hk, render_naming_of_kind_eq es' hk, h, h]
  · rw [render_naming_of_kind_ne _ hk, render_naming_of_kind_ne _ hk]

/-- **How a register is written under the names of a table.** The special registers, temporaries and
virtual registers are written as without a table. A physical register has the name that was entered
last for exactly its range, or else the name that was entered last for its id, with the suffix, or
else it is written as without a table. So the order of entries for different keys does not matter,
names of registers may all come before names of ranges, and of two entries for one key only the
later one counts. -/
theorem render_ofEntries (es : List Entry) (r : Register) :
    (r.render (ofEntries es).naming =
      if r.isStatusFlags ∨ r.isStackPointer ∨ r.isBlockLocal ∨ r.isVirtual then toString r
      else
        match lastName? es (.view r.slot.id r.range), lastName? es (.register r.slot.id) with
        | some name, _ => r.marks ++ name
        | none, some name => r.marks ++ (name ++ r.range.suffix)
        | none, none => toString r) ∧
    (∀ es', SameByKey es es' →
      r.render (ofEntries es).naming = r.render (ofEntries es').naming) ∧
    r.render (ofEntries es).naming =
      r.render (ofEntries
        (es.filter (·.key.isRegister) ++ es.filter (!·.key.isRegister))).naming ∧
    ∀ xs ys zs e e', e.key = e'.key →
      r.render (ofEntries (xs ++ e :: ys ++ e' :: zs)).naming =
        r.render (ofEntries (xs ++ ys ++ e' :: zs)).naming := by
  refine ⟨?_, fun es' h => ?_, ?_, fun xs ys zs e e' h => ?_⟩
  · split
    next hfixed =>
      exact render_naming_of_kind_ne _ fun hk => kind_eq_physical_iff.1 hk hfixed
    next hfree => exact render_naming_of_kind_eq es (kind_eq_physical_iff.2 hfree)
  · exact render_congr_of_lastName? h.lastName?_eq r
  · exact render_congr_of_lastName? (sameByKey_filter_append Key.isRegister es).lastName?_eq r
  · exact render_congr_of_lastName? (lastName?_of_key_eq h) r

/-- The lower half of a register is renamed, and keeps its last name when the register is named
after it. The upper half has no name of its own, and is written as the register with its width. -/
theorem render_renamed_half :
    ∃ (es es' : List Entry) (lower upper : Register),
      es = [.register 0 "rax", .view 0 ⟨32, 0⟩ "r0d", .view 0 ⟨32, 0⟩ "eax"] ∧
      es' = [.view 0 ⟨32, 0⟩ "r0d", .view 0 ⟨32, 0⟩ "eax", .register 0 "rax"] ∧
      lower = ⟨⟨0, .ofList [.physical, .volatile, .readOnly]⟩, ⟨32, 0⟩⟩ ∧
      upper = ⟨⟨0, .ofList [.physical, .volatile, .readOnly]⟩, ⟨32, 32⟩⟩ ∧
      lower.render (ofEntries es).naming = "?&&eax" ∧
      upper.render (ofEntries es).naming = "?&&rax:32" ∧ SameByKey es es' ∧
      lower.render (ofEntries es).naming = lower.render (ofEntries es').naming ∧
      lower.render (ofEntries es).naming =
        lower.render (ofEntries [.register 0 "rax", .view 0 ⟨32, 0⟩ "eax"]).naming := by
  obtain ⟨htext, hreorder, -, hlater⟩ := render_ofEntries
    [.register 0 "rax", .view 0 ⟨32, 0⟩ "r0d", .view 0 ⟨32, 0⟩ "eax"]
    ⟨⟨0, .ofList [.physical, .volatile, .readOnly]⟩, ⟨32, 0⟩⟩
  obtain ⟨hsuffixed, -⟩ := render_ofEntries
    [.register 0 "rax", .view 0 ⟨32, 0⟩ "r0d", .view 0 ⟨32, 0⟩ "eax"]
    ⟨⟨0, .ofList [.physical, .volatile, .readOnly]⟩, ⟨32, 32⟩⟩
  have hsame := sameByKey_filter_append (fun k => !k.isRegister)
    [.register 0 "rax", .view 0 ⟨32, 0⟩ "r0d", .view 0 ⟨32, 0⟩ "eax"]
  exact ⟨_, _, _, _, rfl, rfl, rfl, rfl, htext.trans (by decide), hsuffixed.trans (by decide),
    hsame, hreorder _ hsame,
    hlater [.register 0 "rax"] [] [] (.view 0 ⟨32, 0⟩ "r0d") (.view 0 ⟨32, 0⟩ "eax") rfl⟩

end NameTable

end VirtualIsa
