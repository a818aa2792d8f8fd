import LanguageUsage.Text.Width

/-!
# Lines

* `Text.pieces`: the pieces of a text between separators, of which there is always one more;
* `Text.isLineBreak`, `Text.widestLine`: the width that a text of several lines needs;
* `Text.expandTabs`: tabs as blanks;
* `Text.isSilent`, `Text.withoutEscapes`: what is left out of a text before it is shown.
-/

namespace LanguageUsage.Text

/-- The pieces between separators. -/
def pieces (isSeparator : Char → Bool) : List Char → List (List Char)
  | [] => [[]]
  | c :: cs =>
    if isSeparator c then [] :: pieces isSeparator cs
    else
      match pieces isSeparator cs with
      | [] => [[c]]
      | p :: ps => (c :: p) :: ps

/-- The columns of a run of characters. -/
def columns (cs : List Char) : Nat := (cs.map charWidth).sum

/-- The ranges of the characters between lines. -/
def lineBreakBlocks : List Block :=
  [⟨0x0A, 0x0D⟩, ⟨0x1C, 0x1E⟩, ⟨0x85, 0x85⟩, ⟨0x2028, 0x2029⟩]

/-- Line feeds, returns, and what else may stand between lines. -/
def isLineBreak (c : Char) : Bool := Block.anyHolds lineBreakBlocks c

/-- The columns of the widest line. -/
def widestLine (cs : List Char) : Nat := ((pieces isLineBreak cs).map columns).foldl max 0

/-- The distance of tab stops. -/
def tabSize : Nat := 8

/-- A line with blanks for tabs, each up to the next tab stop; the line starts in the given column. -/
def expandTabs (column : Nat) : List Char → List Char
  | [] => []
  | c :: cs =>
    if c = '\t' then
      let stop := (column / tabSize + 1) * tabSize
      List.replicate (stop - column) ' ' ++ expandTabs stop cs
    else c :: expandTabs (column + charWidth c) cs

/-- Bell, backspace, vertical tab, form feed and return, on which a terminal acts. -/
def isSilent (c : Char) : Bool := [0x07, 0x08, 0x0B, 0x0C, 0x0D].contains c.toNat

/-- What follows the bracket of an escape sequence, up to its last letter. -/
def afterSequence? (cs : List Char) : Option (List Char) :=
  match cs.dropWhile fun c => c == ';' || c == '?' || c.isDigit with
  | c :: rest => if c.isAlpha then some rest else none
  | [] => none

/-- The text without sequences of an escape, a bracket, parameters and a letter. -/
def withoutEscapes (fuel : Nat) (cs : List Char) : List Char :=
  match fuel, cs with
  | fuel + 1, '\x1b' :: '[' :: rest =>
    match afterSequence? rest with
    | some rest => withoutEscapes fuel rest
    | none => '\x1b' :: withoutEscapes fuel ('[' :: rest)
  | fuel + 1, c :: rest => c :: withoutEscapes fuel rest
  | _, cs => cs

theorem pieces_ne_nil (isSeparator : Char → Bool) (cs : List Char) :
    pieces isSeparator cs ≠ [] := by
  cases cs with
  | nil => simp [pieces]
  | cons c cs =>
    unfold pieces
    split
    · simp
    · split <;> simp

end LanguageUsage.Text
