import LanguageUsage.Value.Display

/-!
# Writing documents

A value is written as a JSON document in ASCII: every item and every field on a line of its own, two
blanks further in than what it belongs to, empty lists and objects on one line, no line break at the
end. Not-a-number and the infinities have words of their own.

* `Document.string`: a text in quotes;
* `Document.chars`, `Document.write`: a value.
-/

namespace LanguageUsage.Document

/-- Doubles are written as messages show them, but for the words. -/
def layout : Layout := { displayLayout with infinity := "Infinity", nan := "NaN" }

/-- A number, written so that it reads back. -/
def number : Number → List Char
  | .whole n => (toString n).toList
  | .real x => (layout.render Magnitude.shortest x).toList

/-- An escape for a code of sixteen bits. -/
def unitEscape (n : Nat) : List Char := '\\' :: 'u' :: Text.hexDigits 4 n

/-- A character inside quotes. Those beyond sixteen bits are written as two codes. -/
def escape (c : Char) : List Char :=
  if c = '"' ∨ c = '\\' then ['\\', c]
  else if c = '\n' then ['\\', 'n']
  else if c = '\r' then ['\\', 'r']
  else if c = '\t' then ['\\', 't']
  else if c = '\x08' then ['\\', 'b']
  else if c = '\x0c' then ['\\', 'f']
  else if ' ' ≤ c ∧ c ≤ '~' then [c]
  else if c.toNat < 0x10000 then unitEscape c.toNat
  else
    unitEscape (0xD800 + (c.toNat - 0x10000) / 0x400)
      ++ unitEscape (0xDC00 + (c.toNat - 0x10000) % 0x400)

/-- A text in quotes. -/
def string (s : String) : List Char := '"' :: s.toList.flatMap escape ++ ['"']

/-- A line break, and the blanks for a depth. -/
def newline (depth : Nat) : List Char := '\n' :: List.replicate (2 * depth) ' '

mutual

/-- A value that stands at the given depth. -/
def chars (depth : Nat) : Value → List Char
  | .null => ['n', 'u', 'l', 'l']
  | .bool true => ['t', 'r', 'u', 'e']
  | .bool false => ['f', 'a', 'l', 's', 'e']
  | .number n => number n
  | .text s => string s
  | .list [] => ['[', ']']
  | .list (v :: vs) =>
    '[' :: newline (depth + 1) ++ chars (depth + 1) v ++ moreItems (depth + 1) vs
      ++ newline depth ++ [']']
  | .object [] => ['\x7b', '\x7d']
  | .object ((k, v) :: fs) =>
    '\x7b' :: newline (depth + 1) ++ string k ++ [':', ' '] ++ chars (depth + 1) v
      ++ moreFields (depth + 1) fs ++ newline depth ++ ['\x7d']

/-- The items after the first. -/
def moreItems (depth : Nat) : List Value → List Char
  | [] => []
  | v :: vs => ',' :: newline depth ++ chars depth v ++ moreItems depth vs

/-- The fields after the first. -/
def moreFields (depth : Nat) : List (String × Value) → List Char
  | [] => []
  | (k, v) :: fs =>
    ',' :: newline depth ++ string k ++ [':', ' '] ++ chars depth v ++ moreFields depth fs

end

/-- The document for a value. -/
def write (v : Value) : String := String.ofList (chars 0 v)

end LanguageUsage.Document
