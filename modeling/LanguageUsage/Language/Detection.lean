import LanguageUsage.Language.Script
import LanguageUsage.Number.Rounding
import LanguageUsage.Text.Blank

/-!
# Language detection

The languages of a text are ranked by how many of its characters belong to their script. Han
characters alone cannot tell Chinese from Japanese: in a text with kana they count as Japanese.

* `Script.weight`: the characters that count for the language of a script;
* `tallies`, `ranking`: the scripts of a text with their weights, in order of `Script.all` and by
  decreasing weight;
* `detect`, `detectTags`: the candidates with their confidence, and their tags alone.
-/

namespace LanguageUsage.Language

/-- A candidate language, with the share of the text's characters that speak for it. -/
structure Candidate where
  tag : String
  confidence : Binary64
  deriving DecidableEq, Repr

/-- The number of characters of a text that belong to the script. -/
def scriptCount (text : String) (s : Script) : Nat := text.toList.countP s.holds

/-- The number of characters that count for the language of the script: kana draw the Han characters
to Japanese. -/
def weight (text : String) : Script → Nat
  | .kana => if scriptCount text .kana = 0 then 0
      else scriptCount text .kana + scriptCount text .han
  | .han => if scriptCount text .kana = 0 then scriptCount text .han else 0
  | s => scriptCount text s

/-- The scripts that speak for some language of the text, with their weights. -/
def tallies (text : String) : List (Script × Nat) :=
  (Script.all.map fun s => (s, weight text s)).filter fun t => t.2 != 0

/-- The tallies by decreasing weight; scripts of equal weight stay in their order. -/
def ranking (text : String) : List (Script × Nat) :=
  (tallies text).mergeSort fun a b => decide (b.2 ≤ a.2)

/-- The sum of all weights. -/
def total (text : String) : Nat := ((tallies text).map (·.2)).sum

/-- The candidates for the language of a text, most confident first. -/
def detect (text : String) : List Candidate :=
  if Text.isBlank text then []
  else (ranking text).map fun t => ⟨t.1.tag, .ofQuotient t.2 (total text)⟩

/-- The tags of the candidates, most confident first. -/
def detectTags (text : String) : List String := (detect text).map (·.tag)

end LanguageUsage.Language
