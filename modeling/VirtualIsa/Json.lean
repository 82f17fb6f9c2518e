/-!
# JSON values and their compact text

The dumps of this library are JSON values written without blanks, with the fields
of an object in the order in which they are given. Numbers are natural.

* `Json`, and its text as characters, `Json.chars`, and as a string, `Json.compact`;
* inside a string a quote, a backslash and the control characters below U+0020 are
  escaped, by their short form where there is one; every other character stands for
  itself.
-/

namespace VirtualIsa

/-- A JSON value. -/
inductive Json where
  | null
  | bool (value : Bool)
  | num (value : Nat)
  | str (value : String)
  | arr (items : List Json)
  | obj (fields : List (String × Json))

namespace Json

/-- The characters that stand for `c` inside a string. -/
def escape (c : Char) : List Char :=
  match c with
  | '"' => ['\\', '"']
  | '\\' => ['\\', '\\']
  | '\x08' => ['\\', 'b']
  | '\t' => ['\\', 't']
  | '\n' => ['\\', 'n']
  | '\x0c' => ['\\', 'f']
  | '\r' => ['\\', 'r']
  | c =>
    if c.toNat < 0x20 then
      ['\\', 'u', '0', '0', Nat.digitChar (c.toNat / 16), Nat.digitChar (c.toNat % 16)]
    else [c]

/-- A string between quotes. -/
def quoted (s : String) : List Char := '"' :: s.toList.flatMap escape ++ ['"']

mutual

/-- The compact text of a value. -/
def chars : Json → List Char
  | .null => ['n', 'u', 'l', 'l']
  | .bool true => ['t', 'r', 'u', 'e']
  | .bool false => ['f', 'a', 'l', 's', 'e']
  | .num n => Nat.toDigits 10 n
  | .str s => quoted s
  | .arr items => '[' :: itemChars items ++ [']']
  | .obj fields => '\x7b' :: fieldChars fields ++ ['\x7d']

/-- Values with commas between them. -/
def itemChars : List Json → List Char
  | [] => []
  | [j] => chars j
  | j :: k :: items => chars j ++ ',' :: itemChars (k :: items)

/-- Named values with commas between them. -/
def fieldChars : List (String × Json) → List Char
  | [] => []
  | [(name, j)] => quoted name ++ ':' :: chars j
  | (name, j) :: f :: fields => quoted name ++ ':' :: chars j ++ ',' :: fieldChars (f :: fields)

end

/-- The compact text of a value as a string. -/
def compact (j : Json) : String := String.ofList j.chars

@[simp] theorem toList_compact (j : Json) : j.compact.toList = j.chars := by
  simp [compact]

/-- Equal texts are equal character by character. -/
theorem compact_inj {j k : Json} : j.compact = k.compact ↔ j.chars = k.chars :=
  ⟨fun h => by simpa using congrArg String.toList h, fun h => by rw [compact, h, compact]⟩

/-- The value of an optional field: `null` where there is none. -/
def ofOption (f : α → Json) : Option α → Json
  | none => .null
  | some a => f a

end Json

end VirtualIsa
