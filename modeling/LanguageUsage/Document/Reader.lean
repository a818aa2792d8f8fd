import LanguageUsage.Fault

/-!
# Reading documents

The text of a JSON document is read from left to right, and the first thing wrong with it decides
which fault is reported. Beyond the standard, `NaN`, `Infinity` and `-Infinity` are numbers, whole
numbers are exact, and of fields with the same name the last one counts. Characters below `U+0020`
must be escaped inside texts. Texts are made of characters: an escape for half of a pair of codes that has
no other half becomes `U+FFFD`, where readers whose texts are made of codes would keep the half.

* `Document.readString`, `Document.readNumber`: texts and numbers;
* `Document.readValue`: a value in front of other text, with what follows it;
* `Document.read`: a whole document.

Nested values and the items of a list are read with `fuel`, of which `Document.read` supplies more
than there are steps to make.
-/

namespace LanguageUsage.Document

/-- How many lists and objects may stand inside each other. -/
def maxNesting : Nat := 990

/-- The blank characters between the parts of a document. -/
def isGap (c : Char) : Bool := c == ' ' || c == '\t' || c == '\n' || c == '\r'

/-- What follows the blanks. -/
def skip (cs : List Char) : List Char := cs.dropWhile isGap

/-! ### Texts -/

/-- The value of a hexadecimal digit. -/
def hexDigit? (c : Char) : Option Nat :=
  if '0' ≤ c ∧ c ≤ '9' then some (c.toNat - '0'.toNat)
  else if 'a' ≤ c ∧ c ≤ 'f' then some (c.toNat - 'a'.toNat + 10)
  else if 'A' ≤ c ∧ c ≤ 'F' then some (c.toNat - 'A'.toNat + 10)
  else none

/-- The code given by four hexadecimal digits. -/
def unit? (a b c d : Char) : Option Nat := do
  return (((← hexDigit? a) * 16 + (← hexDigit? b)) * 16 + (← hexDigit? c)) * 16 + (← hexDigit? d)

def isHighHalf (n : Nat) : Bool := 0xD800 ≤ n && n < 0xDC00

def isLowHalf (n : Nat) : Bool := 0xDC00 ≤ n && n < 0xE000

/-- The character with a code; half of a pair that stands alone is replaced. -/
def charOf (n : Nat) : Char := if n.isValidChar then Char.ofNat n else '\uFFFD'

/-- The character that two halves make up. -/
def joinHalves (high low : Nat) : Char :=
  Char.ofNat (0x10000 + (high - 0xD800) * 0x400 + (low - 0xDC00))

/-- The character for which a letter stands after a backslash. -/
def escaped? : Char → Option Char
  | '"' => some '"'
  | '\\' => some '\\'
  | '/' => some '/'
  | 'b' => some '\x08'
  | 'f' => some '\x0c'
  | 'n' => some '\n'
  | 'r' => some '\r'
  | 't' => some '\t'
  | _ => none

/-- A part of a text: a character, or a code that was given by its digits. -/
inductive Piece
  | plain (c : Char)
  | code (n : Nat)
  deriving DecidableEq, Repr

/-- The parts of a text up to the closing quote, and what follows it. -/
def readPieces : List Char → Option (List Piece × List Char)
  | [] => none
  | '"' :: rest => some ([], rest)
  | '\\' :: 'u' :: a :: b :: c :: d :: rest =>
    match unit? a b c d, readPieces rest with
    | some n, some (ps, rest) => some (.code n :: ps, rest)
    | _, _ => none
  | '\\' :: c :: rest =>
    match escaped? c, readPieces rest with
    | some e, some (ps, rest) => some (.plain e :: ps, rest)
    | _, _ => none
  | c :: rest =>
    if c < ' ' ∨ c = '\\' then none
    else
      match readPieces rest with
      | some (ps, rest) => some (.plain c :: ps, rest)
      | none => none

/-- The characters for the parts of a text. -/
def joinPieces : List Piece → List Char
  | [] => []
  | .plain c :: ps => c :: joinPieces ps
  | .code n :: .code m :: ps =>
    if isHighHalf n && isLowHalf m then joinHalves n m :: joinPieces ps
    else charOf n :: joinPieces (.code m :: ps)
  | .code n :: ps => charOf n :: joinPieces ps

/-- The characters of a text up to the closing quote, and what follows it. -/
def readString (cs : List Char) : Option (List Char × List Char) :=
  (readPieces cs).map fun r => (joinPieces r.1, r.2)

/-! ### Numbers -/

/-- The number that digits stand for. -/
def ofDigits (ds : List Char) : Nat := ds.foldl (fun n d => n * 10 + (d.toNat - '0'.toNat)) 0

/-- The digits in front, and what follows them. -/
def splitDigits (cs : List Char) : List Char × List Char :=
  (cs.takeWhile Char.isDigit, cs.dropWhile Char.isDigit)

/-- The digits of a whole number in front: a lone zero, or digits that do not start with one. -/
def splitWhole : List Char → List Char × List Char
  | '0' :: rest => (['0'], rest)
  | cs => splitDigits cs

/-- The digits after a point in front, none if there is no point with digits after it. -/
def splitFraction (cs : List Char) : List Char × List Char :=
  match cs with
  | '.' :: rest => if (splitDigits rest).1 = [] then ([], cs) else splitDigits rest
  | _ => ([], cs)

/-- An exponent in front, if there is one. -/
def splitExponent (cs : List Char) : Option Int × List Char :=
  let digits := fun (negative : Bool) (rest : List Char) =>
    match splitDigits rest with
    | ([], _) => (none, cs)
    | (ds, rest) => (some (if negative then -(ofDigits ds : Int) else ofDigits ds), rest)
  match cs with
  | c :: '-' :: rest => if c = 'e' ∨ c = 'E' then digits true rest else (none, cs)
  | c :: '+' :: rest => if c = 'e' ∨ c = 'E' then digits false rest else (none, cs)
  | c :: rest => if c = 'e' ∨ c = 'E' then digits false rest else (none, cs)
  | [] => (none, cs)

/-- A number without its sign. With a fraction or an exponent it is a double, else a whole number. -/
def readUnsigned (negative : Bool) (cs : List Char) : Except Fault (Number × List Char) :=
  let (whole, rest) := splitWhole cs
  if whole = [] then .error .malformedDocument
  else
    let (fraction, rest) := splitFraction rest
    let (exponent, rest) := splitExponent rest
    if fraction = [] ∧ exponent = none then
      if digitLimit < whole.length then .error (.tooManyDigits whole.length)
      else .ok (.whole (if negative then -(ofDigits whole : Int) else ofDigits whole), rest)
    else
      let point := exponent.getD 0 - (fraction.length : Int)
      .ok (.real (.ofDecimal negative (ofDigits (whole ++ fraction)) point), rest)

/-- A number in front of other text. -/
def readNumber : List Char → Except Fault (Number × List Char)
  | 'N' :: 'a' :: 'N' :: rest => .ok (.real .nan, rest)
  | 'I' :: 'n' :: 'f' :: 'i' :: 'n' :: 'i' :: 't' :: 'y' :: rest =>
    .ok (.real (.infinity false), rest)
  | '-' :: 'I' :: 'n' :: 'f' :: 'i' :: 'n' :: 'i' :: 't' :: 'y' :: rest =>
    .ok (.real (.infinity true), rest)
  | '-' :: rest => readUnsigned true rest
  | cs => readUnsigned false cs

/-! ### Values -/

mutual

/-- A value in front of other text, inside `depth` lists and objects. -/
def readValue : Nat → Nat → List Char → Except Fault (Value × List Char)
  | 0, _, _ => .error .malformedDocument
  | fuel + 1, depth, cs =>
    match cs with
    | 'n' :: 'u' :: 'l' :: 'l' :: rest => .ok (.null, rest)
    | 't' :: 'r' :: 'u' :: 'e' :: rest => .ok (.bool true, rest)
    | 'f' :: 'a' :: 'l' :: 's' :: 'e' :: rest => .ok (.bool false, rest)
    | '"' :: rest =>
      match readString rest with
      | some (s, rest) => .ok (.text (String.ofList s), rest)
      | none => .error .malformedDocument
    | '[' :: rest =>
      if maxNesting ≤ depth then .error .nestedTooDeep
      else
        match skip rest with
        | ']' :: rest => .ok (.list [], rest)
        | rest =>
          match readItems fuel (depth + 1) rest with
          | .ok (vs, rest) => .ok (.list vs, rest)
          | .error f => .error f
    | '\x7b' :: rest =>
      if maxNesting ≤ depth then .error .nestedTooDeep
      else
        match skip rest with
        | '\x7d' :: rest => .ok (.object [], rest)
        | rest =>
          match readFields fuel (depth + 1) rest with
          | .ok (fs, rest) => .ok (.object (Value.Fields.ofList fs), rest)
          | .error f => .error f
    | cs =>
      match readNumber cs with
      | .ok (n, rest) => .ok (.number n, rest)
      | .error f => .error f

/-- The items of a list up to its end, at least one. -/
def readItems : Nat → Nat → List Char → Except Fault (List Value × List Char)
  | 0, _, _ => .error .malformedDocument
  | fuel + 1, depth, cs =>
    match readValue fuel depth cs with
    | .error f => .error f
    | .ok (v, rest) =>
      match skip rest with
      | ']' :: rest => .ok ([v], rest)
      | ',' :: rest =>
        match readItems fuel depth (skip rest) with
        | .ok (vs, rest) => .ok (v :: vs, rest)
        | .error f => .error f
      | _ => .error .malformedDocument

/-- The fields of an object up to its end, at least one. -/
def readFields : Nat → Nat → List Char → Except Fault (List (String × Value) × List Char)
  | 0, _, _ => .error .malformedDocument
  | fuel + 1, depth, cs =>
    match cs with
    | '"' :: rest =>
      match readString rest with
      | none => .error .malformedDocument
      | some (key, rest) =>
        match skip rest with
        | ':' :: rest =>
          match readValue fuel depth (skip rest) with
          | .error f => .error f
          | .ok (v, rest) =>
            match skip rest with
            | '\x7d' :: rest => .ok ([(String.ofList key, v)], rest)
            | ',' :: rest =>
              match readFields fuel depth (skip rest) with
              | .ok (fs, rest) => .ok ((String.ofList key, v) :: fs, rest)
              | .error f => .error f
            | _ => .error .malformedDocument
        | _ => .error .malformedDocument
    | _ => .error .malformedDocument

end

/-- Read a whole document. -/
def read (s : String) : Except Fault Value :=
  match readValue (2 * s.length + 2) 0 (skip s.toList) with
  | .error f => .error f
  | .ok (v, rest) => if skip rest = [] then .ok v else .error .malformedDocument

end LanguageUsage.Document
