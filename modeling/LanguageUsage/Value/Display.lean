import LanguageUsage.Number.Digits
import LanguageUsage.Number.Layout
import LanguageUsage.Text.Quoted
import LanguageUsage.Value

/-!
# Values in messages

How a value is shown to the user: `Value.shown` writes every value so that its kind can be told,
texts in quotes; `Value.display` differs only in showing a text, taken by itself, as it is. A value with
a whole number that has too many digits cannot be shown, which `Value.isWritable` tells.
-/

namespace LanguageUsage

/-- Doubles are shown by the fewest digits that read back, without an exponent from `0.0001` to
below `10 ^ 16`. -/
def displayLayout : Layout where
  pointAfter := -4
  pointUpTo := 16
  pointBeforeExponent := false
  signedZero := true
  infinity := "inf"
  nan := "nan"

/-- A double as messages show it. -/
def Binary64.display (x : Binary64) : String := displayLayout.render Magnitude.shortest x

/-- A number as messages show it. -/
def Number.display : Number → String
  | .whole n => toString n
  | .real x => x.display

namespace Value

mutual

/-- A value with its texts in quotes. -/
def shown : Value → String
  | .null => "None"
  | .bool true => "True"
  | .bool false => "False"
  | .number n => n.display
  | .text s => Text.quoted s
  | .list items => "[" ++ ", ".intercalate (shownItems items) ++ "]"
  | .object fields => "\x7b" ++ ", ".intercalate (shownFields fields) ++ "\x7d"

def shownItems : List Value → List String
  | [] => []
  | v :: vs => shown v :: shownItems vs

def shownFields : List (String × Value) → List String
  | [] => []
  | (k, v) :: fs => (Text.quoted k ++ ": " ++ shown v) :: shownFields fs

end

/-- A value in running text. -/
def display : Value → String
  | .text s => s
  | v => v.shown

mutual

/-- The whole numbers in a value have no more digits than can be written. -/
def isWritable : Value → Bool
  | .number n => n.isWritable (some digitLimit)
  | .list items => areWritable items
  | .object fields => areWritableFields fields
  | .null | .bool _ | .text _ => true

def areWritable : List Value → Bool
  | [] => true
  | v :: vs => isWritable v && areWritable vs

def areWritableFields : List (String × Value) → Bool
  | [] => true
  | (_, v) :: fs => isWritable v && areWritableFields fs

end

@[simp] theorem display_text (s : String) : display (.text s) = s := rfl

end Value

end LanguageUsage
