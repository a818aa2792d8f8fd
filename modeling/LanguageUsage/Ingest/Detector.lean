import LanguageUsage.Fault
import LanguageUsage.Language.Detection

/-!
# Detectors

A detector answers a text with language tags, most confident first. It is supplied by the caller, so
its answer may be of any kind, and it may give up or be interrupted.

* `Answer`, `Detector`, `Detector.byScript`;
* `Answer.tags`: the tags of an acceptable answer;
* `topTag`: the first usable tag among them;
* `Detector.consult`: the top tags of several texts, up to the first that cannot be answered.
-/

namespace LanguageUsage

/-- What a detector makes of a text. -/
inductive Answer
  | value (v : Value)
  /-- a fixed sequence, which is taken like a list -/
  | tuple (items : List Value)
  /-- the detector gave up -/
  | raised (reason : String)
  /-- the detector was interrupted, which is no failure of the detection -/
  | interrupted (reason : String)
  deriving DecidableEq, Repr, Inhabited

/-- What answers texts. -/
structure Detector where
  answer : String → Answer
  /-- an answer is not there at once: others may go on before it is -/
  pausing : Bool := false
  deriving Inhabited

/-- Detection by script. -/
def Detector.byScript : Detector where
  answer text := .value (.list ((Language.detectTags text).map .text))

/-- The tags of an answer: those of a list, a single text, or none at all. -/
def Answer.tags : Answer → Except Fault (List Value)
  | .raised reason => .error (.detectorRaised reason)
  | .interrupted reason => .error (.interrupted reason)
  | .tuple items => .ok items
  | .value .null => .ok []
  | .value (.text s) => .ok [.text s]
  | .value (.list items) => .ok items
  | .value v => .error (.detectorAnswered v)

/-- A tag that is a text and not blank. -/
def usableTag? : Value → Option String
  | .text s => if Text.isBlank s then none else some s
  | _ => none

/-- The first usable tag. -/
def topTag (tags : List Value) : Option String := tags.findSome? usableTag?

/-- Ask for every text in turn. The first component holds the texts that were asked for, the second
their top tags, or the fault that ended the asking. -/
def Detector.consult (d : Detector) : List String → List String × Except Fault (List String)
  | [] => ([], .ok [])
  | t :: ts =>
    match (d.answer t).tags with
    | .error f => ([t], .error f)
    | .ok tags =>
      let (asked, found) := d.consult ts
      (t :: asked, found.map fun rest => (topTag tags).toList ++ rest)

end LanguageUsage
