import LanguageUsage.Text.Blank
import LanguageUsage.Text.Lines

/-!
# Wrapped text

A text is set in lines of a bounded width. Lines end between words; what to do with a word that is
wider than a line is a choice.

* `Overflow`: the choice, a word is folded or cut short;
* `Text.words`, `Text.divided`: the words of a line, and the lines into which they go;
* `Text.cut`: the front of a line that fills an exact width;
* `Text.wrapped`: the lines of a text.
-/

namespace LanguageUsage.Text

/-- What becomes of a word that is wider than a line. -/
inductive Overflow
  /-- it goes on in the next line -/
  | fold
  /-- it ends with a mark of omission -/
  | ellipsis
  deriving DecidableEq, Repr

/-! ### Words -/

/-- The words of a line that does not start with a blank, each with the blanks behind it. At most
`fuel` are separated. -/
def wordsFrom : Nat → List Char → List (List Char)
  | 0, cs => [cs]
  | fuel + 1, cs =>
    if cs.isEmpty then []
    else
      let rest := cs.dropWhile (!isBlankChar ·)
      (cs.takeWhile (!isBlankChar ·) ++ rest.takeWhile isBlankChar)
        :: wordsFrom fuel (rest.dropWhile isBlankChar)

/-- The words of a line, each with the blanks behind it, and the first one also with those before it. A
line of blanks is one word. -/
def words (cs : List Char) : List (List Char) :=
  match wordsFrom cs.length (cs.dropWhile isBlankChar) with
  | [] => [cs]
  | w :: ws => (cs.takeWhile isBlankChar ++ w) :: ws

/-- A line without the blanks at its end. -/
def withoutEnd (cs : List Char) : List Char := (cs.reverse.dropWhile isBlankChar).reverse

/-! ### Lines of words -/

/-- A word in parts that are no wider than `limit`. The part that is begun takes `used` columns. -/
def folded (limit : Nat) (used : Nat) : List Char → List Char → List (List Char)
  | part, [] => [part]
  | part, c :: cs =>
    if limit < used + charWidth c then part :: folded limit (charWidth c) [c] cs
    else folded limit (used + charWidth c) (part ++ [c]) cs

/-- Words in lines, the first of which is begun. A word goes to the line before it if it fits there
without the blanks behind it. -/
def divided (overflow : Overflow) (limit : Nat) : List Char → List (List Char) → List (List Char)
  | line, [] => [line]
  | line, w :: ws =>
    let size := columns (withoutEnd w)
    let before := if line.isEmpty then [] else [line]
    if columns line + size ≤ limit then divided overflow limit (line ++ w) ws
    else if size ≤ limit then line :: divided overflow limit w ws
    else
      match overflow with
      | .ellipsis => before ++ divided overflow limit w ws
      | .fold =>
        let parts := folded limit 0 [] w
        before ++ parts.dropLast ++ divided overflow limit (parts.getLast?.getD []) ws

/-! ### Lines of exact width -/

/-- A line with blanks at its end cut off as far as it has more than `limit` characters. -/
def withoutSurplus (limit : Nat) (cs : List Char) : List Char :=
  cs.take (cs.length - min (cs.length - (withoutEnd cs).length) (cs.length - limit))

/-- The front of a line that takes `total` columns, where the line takes more. A character of which
only half would fit is replaced by a blank. The end of the front is searched for by halving between
`low` and `high`. -/
def cut (total : Nat) (cs : List Char) : Nat → Nat → Nat → List Char
  | 0, low, _ => cs.take low
  | fuel + 1, low, high =>
    let middle := (low + high) / 2
    let front := cs.take (middle + 1)
    let size := columns front
    if size = total + 1 ∧ (front.getLast?).any (charWidth · = 2) then front.dropLast ++ [' ']
    else if size = total then front
    else if total < size then cut total cs fuel low middle
    else cut total cs fuel middle high

/-- A line that is made to take `total` columns. -/
def fitted (total : Nat) (cs : List Char) : List Char :=
  if total = 0 then []
  else if total < columns cs then cut total cs cs.length 0 cs.length
  else cs ++ List.replicate (total - columns cs) ' '

/-- A line that is no wider than `limit`. -/
def truncated (overflow : Overflow) (limit : Nat) (cs : List Char) : List Char :=
  if columns cs ≤ limit then cs
  else
    match overflow with
    | .fold => fitted limit cs
    | .ellipsis => fitted (limit - 1) cs ++ ['…']

/-- The lines of a text before they are truncated. -/
def rawLines (overflow : Overflow) (limit : Nat) (cs : List Char) : List (List Char) :=
  (pieces (· = '\n') (cs.filter (!isSilent ·))).flatMap fun line =>
    (divided overflow limit [] (words (expandTabs 0 line))).map (withoutSurplus limit)

/-- The lines of a text, none wider than `limit`. -/
def wrapped (limit : Nat) (s : String) : List String :=
  (rawLines .fold limit s.toList).map fun line => String.ofList (truncated .fold limit line)

end LanguageUsage.Text
