import LanguageUsage.Fault
import LanguageUsage.Number.Extended

/-!
# Numbers in a database

A database column holds whole numbers of 64 bits and doubles.

* `isStorable`: the whole numbers in range;
* `Number.narrowed`: a double that is a whole number in range is kept as such in a column of counts;
* `Number.addStored`: a sum of whole numbers that leaves the range is a sum of doubles;
* `Value.columnText?`: the text with which a value is compared in a column of texts.
-/

namespace LanguageUsage

/-- The whole numbers of 64 bits. -/
def isStorable (n : Int) : Bool := decide (-(2 ^ 63) ≤ n ∧ n < 2 ^ 63)

/-- The whole number equal to a double, if there is one. -/
def Binary64.toInt? (x : Binary64) : Option Int :=
  match x.place? with
  | some (.units u) => if u % 2 ^ 1074 = 0 then some (u / 2 ^ 1074) else none
  | _ => none

namespace Number

/-- What a column of counts makes of a number: doubles equal to a whole number strictly inside the
range become that number. -/
def narrowed : Number → Number
  | .whole n => .whole n
  | .real x => match x.toInt? with
    | some n => if -(2 ^ 63) < n ∧ n < 2 ^ 63 - 1 then .whole n else .real x
    | none => .real x

/-- A whole number in range as a double. -/
def asDouble : Number → Binary64
  | .whole n => (Binary64.ofInt? n).getD (.infinity (decide (n < 0)))
  | .real x => x

/-- The sum of two stored numbers, as a column of counts keeps it. -/
def addStored : Number → Number → Number
  | .whole m, .whole n =>
    if isStorable (m + n) then .whole (m + n)
    else narrowed (.real ((asDouble (.whole m)).add (asDouble (.whole n))))
  | a, b => narrowed (.real (a.asDouble.add b.asDouble))

theorem addStored_whole {m n : Int} (h : isStorable (m + n) = true) :
    addStored (.whole m) (.whole n) = .whole (m + n) := by
  simp [addStored, h]

end Number

/-- Doubles in a column of texts have at most fifteen digits, always a point, and no sign of zero. -/
def columnLayout : Layout where
  pointAfter := -4
  pointUpTo := 15
  pointBeforeExponent := true
  signedZero := false
  infinity := "Inf"
  nan := ""

/-- The text with which a value is compared in a column of texts; some values equal none. -/
def Value.columnText? : Value → Except Fault (Option String)
  | .null => .ok none
  | .bool b => .ok (some (if b then "1" else "0"))
  | .number (.whole n) =>
    if isStorable n then .ok (some (toString n)) else .error .beyondStoredRange
  | .number (.real .nan) => .ok none
  | .number (.real x) => .ok (some (columnLayout.render Magnitude.scaled x))
  | .text s => .ok (some s)
  | .list _ | .object _ => .error .cannotRead

end LanguageUsage
