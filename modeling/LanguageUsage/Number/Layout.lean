import LanguageUsage.Number.Shortest

/-!
# Layout of doubles

How the digits of a double are set: where the point stands, when an exponent is used, and what is
written for the values without digits. The choices are one record, `Layout`; the digits come from
`Magnitude.shortest` or `Magnitude.scaled`.
-/

namespace LanguageUsage

/-- The choices of a notation for doubles. -/
structure Layout where
  /-- the point is written in place when it stands after this position … -/
  pointAfter : Int
  /-- … and not after this one; otherwise an exponent follows the digits -/
  pointUpTo : Int
  /-- a lone digit before an exponent is followed by `.0` too -/
  pointBeforeExponent : Bool
  /-- zero keeps its sign -/
  signedZero : Bool
  infinity : String
  nan : String
  deriving Repr

namespace Layout

/-- Digits without an exponent, at least one on each side of the point. -/
def positional (digits : List Char) (point : Int) : List Char :=
  match point with
  | .negSucc p => '0' :: '.' :: List.replicate (p + 1) '0' ++ digits
  | .ofNat 0 => '0' :: '.' :: digits
  | .ofNat p =>
    let whole := digits.take p ++ List.replicate (p - digits.length) '0'
    whole ++ '.' :: (if digits.drop p = [] then ['0'] else digits.drop p)

/-- An exponent: its sign and at least two digits. -/
def exponentText (e : Int) : List Char :=
  let digits := Nat.toDigits 10 e.natAbs
  'e' :: (if e < 0 then '-' else '+') :: List.replicate (2 - digits.length) '0' ++ digits

/-- One digit, the point and the other digits, and an exponent. -/
def scientific (l : Layout) (digits : List Char) (point : Int) : List Char :=
  let fraction := match digits.drop 1 with
    | [] => if l.pointBeforeExponent then ['.', '0'] else []
    | rest => '.' :: rest
  digits.take 1 ++ fraction ++ exponentText (point - 1)

/-- The text of a positive decimal. -/
def ofDecimal (l : Layout) (d : Decimal) : List Char :=
  if l.pointAfter < d.point ∧ d.point ≤ l.pointUpTo then positional d.digits d.point
  else l.scientific d.digits d.point

/-- The text of a double whose digits are chosen by `digits`. -/
def render (l : Layout) (digits : Magnitude → Decimal) : Binary64 → String
  | .nan => l.nan
  | .signed negative m =>
    let sign := if negative && (l.signedZero || m.rank != 0) then "-" else ""
    if m.isInfinite then sign ++ l.infinity
    else if m.rank = 0 then sign ++ "0.0"
    else sign ++ String.ofList (l.ofDecimal (digits m))

end Layout

end LanguageUsage
