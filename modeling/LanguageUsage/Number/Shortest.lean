import LanguageUsage.Number.Rounding

/-!
# Decimal digits of a double

* `Magnitude.shortest`: the fewest digits that read back as the magnitude, and of those the nearest
  to it;
* `Magnitude.fixed`: a given number of places after the point.

The shortest decimal is searched for on the grids of `1, 2, …, 17` digits: if a point of a grid lies
between the two middles to the neighbouring magnitudes, then so does one of the two points of that
grid around the magnitude itself, so only these two are tried. The middles belong to the magnitude
exactly when its rank is even. Seventeen digits always suffice.
-/

namespace LanguageUsage

/-- A positive decimal number `coefficient * 10 ^ exponent`. -/
structure Decimal where
  coefficient : Nat
  exponent : Int
  deriving DecidableEq, Repr, Inhabited

namespace Decimal

/-- The coefficient without its last digits, as long as they are zeros. At most `fuel` are cut. -/
def dropZeros : Nat → Decimal → Decimal
  | 0, d => d
  | fuel + 1, d =>
    if d.coefficient % 10 = 0 then dropZeros fuel ⟨d.coefficient / 10, d.exponent + 1⟩ else d

/-- The digits of the coefficient. -/
def digits (d : Decimal) : List Char := Nat.toDigits 10 d.coefficient

/-- The position of the point, counted from the first digit. -/
def point (d : Decimal) : Int := d.exponent + d.digits.length

end Decimal

namespace Magnitude

/-- `2 ^ 1074`, the number of units in one. -/
def one : Nat := 2 ^ 1074

/-- The position of the decimal point, counted from the first digit: `p` such that the value, given
by its units, lies in `10 ^ (p - 1) ≤ value < 10 ^ p`. -/
def decimalPoint (units : Nat) : Int :=
  if one ≤ units then Binary64.decimalLength (units / one)
  else
    let q := one / units
    let places := Binary64.decimalLength q
    if q = 10 ^ (places - 1) ∧ one % units = 0 then 2 - (places : Int) else 1 - (places : Int)

/-- The quotient of a number of units by `10 ^ exponent`, as a fraction. -/
def onGrid (units : Nat) : Int → Nat × Nat
  | .ofNat e => (units, one * 10 ^ e)
  | .negSucc e => (units * 10 ^ (e + 1), one)

/-- `coefficient * 10 ^ exponent` lies between the middles to the neighbours of `m`, which belong to
`m` if its rank is even. -/
def readsBack (m : Magnitude) (d : Decimal) : Bool :=
  let (n, one) := match d.exponent with
    | .ofNat e => (d.coefficient * 10 ^ e * one, 1)
    | .negSucc e => (d.coefficient * one, 10 ^ (e + 1))
  let low := (unitsOfRank (m.rank - 1) + m.units) * one
  let high := (m.units + unitsOfRank (m.rank + 1)) * one
  if m.rank % 2 = 0 then low ≤ 2 * n && 2 * n ≤ high else low < 2 * n && 2 * n < high

/-- The nearest decimal of `digits` digits that reads back, if there is one. Of two that are as near
the even one is taken. -/
def onDigits? (m : Magnitude) (point : Int) (digits : Nat) : Option Decimal :=
  let exponent := point - digits
  let (n, d) := onGrid m.units exponent
  let below : Decimal := ⟨n / d, exponent⟩
  let above : Decimal := ⟨n / d + 1, exponent⟩
  match m.readsBack below, m.readsBack above with
  | true, true => some ⟨roundEven n d, exponent⟩
  | true, false => some below
  | false, true => some above
  | false, false => none

/-- The fewest digits that read back as `m`, which is finite and not zero. -/
def shortest (m : Magnitude) : Decimal :=
  let point := decimalPoint m.units
  let found := (List.range' 1 17).findSome? (m.onDigits? point)
  (found.getD ⟨0, 0⟩).dropZeros 17

/-- The value with `places` digits after the point, a half rounded to the even neighbour. -/
def fixed (m : Magnitude) (places : Nat) : String :=
  let scaled := roundEven (m.units * 10 ^ places) one
  let digits := Nat.toDigits 10 (scaled % 10 ^ places)
  toString (scaled / 10 ^ places) ++ "." ++
    String.ofList (List.replicate (places - digits.length) '0' ++ digits)

end Magnitude

end LanguageUsage
