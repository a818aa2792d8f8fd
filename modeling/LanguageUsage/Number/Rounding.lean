import LanguageUsage.Number.Binary64

/-!
# Rounding to double precision

Every operation on doubles is its exact result, rounded once to the nearest double, and from the
middle between two neighbours to the one of even rank.

* `roundEven n d`: the quotient `n / d` rounded to a whole number;
* `Magnitude.ofRatio n d`: the magnitude nearest to `n / d` units of `2 ^ -1074`;
* `Binary64.ofInt`, `Binary64.ofDecimal`, `Binary64.add`, `Binary64.div`, `Binary64.ofQuotient`.
-/

namespace LanguageUsage

/-- `n / d` rounded to the nearest whole number, a half to the even neighbour. -/
def roundEven (n d : Nat) : Nat :=
  let k := n / d
  let r := n % d
  if 2 * r < d then k else if d < 2 * r then k + 1 else k + k % 2

/-- How many times the distance of neighbouring ranks has doubled at `q` units. -/
def doublings (q : Nat) : Nat := if q < 2 ^ 53 then 0 else q.log2 - 52

/-- The rank nearest to `n / d` units, were there no largest one. -/
def nearestRank (n d : Nat) : Nat :=
  let s := doublings (n / d)
  s * 2 ^ 52 + roundEven n (d * 2 ^ s)

/-- The magnitude nearest to `n / d` units of `2 ^ -1074`; what rounds beyond the largest finite
one is infinite. -/
def Magnitude.ofRatio (n d : Nat) : Magnitude :=
  ⟨min (nearestRank n d) infinityRank, Nat.min_le_right _ _⟩

namespace Binary64

/-- `n / d` units of `2 ^ -1074`, rounded; zero gets the sign that is given. -/
def ofUnits (negative : Bool) (n d : Nat) : Binary64 := .signed negative (.ofRatio n d)

/-- The nearest double to a whole number; none beyond the finite range. -/
def ofInt? (n : Int) : Option Binary64 :=
  let m := Magnitude.ofRatio (n.natAbs * 2 ^ 1074) 1
  if m.isInfinite then none else some (.signed (decide (n < 0)) m)

/-- How many decimal digits a number has; zero has one. -/
def decimalLength (n : Nat) : Nat := (Nat.toDigits 10 n).length

/-- The double nearest to `coefficient * 10 ^ exponent`. Exponents that lie far beyond the range
are answered without computing the power. -/
def ofDecimal (negative : Bool) (coefficient : Nat) (exponent : Int) : Binary64 :=
  let top := exponent + decimalLength coefficient
  if coefficient = 0 ∨ top < -330 then .signed negative .zero
  else if 310 < top then .infinity negative
  else
    match exponent with
    | .ofNat e => ofUnits negative (coefficient * 10 ^ e * 2 ^ 1074) 1
    | .negSucc e => ofUnits negative (coefficient * 2 ^ 1074) (10 ^ (e + 1))

/-- The value of a finite number in units of `2 ^ -1074`. -/
def signedUnits (negative : Bool) (m : Magnitude) : Int :=
  if negative then -(m.units : Int) else m.units

/-- The rounded sum. Infinities of opposite sign have none; a sum that cancels is `+0`. -/
def add : Binary64 → Binary64 → Binary64
  | .nan, _ | _, .nan => .nan
  | .signed s m, .signed t n =>
    if m.isInfinite then
      if n.isInfinite ∧ s ≠ t then .nan else .signed s m
    else if n.isInfinite then .signed t n
    else
      let sum := signedUnits s m + signedUnits t n
      if sum = 0 then .signed (s && t) .zero else ofUnits (decide (sum < 0)) sum.natAbs 1

/-- The rounded quotient. Zero by zero and infinity by infinity have none. -/
def div : Binary64 → Binary64 → Binary64
  | .nan, _ | _, .nan => .nan
  | .signed s m, .signed t n =>
    let negative := s != t
    if m.isInfinite then
      if n.isInfinite then .nan else .infinity negative
    else if n.isInfinite then .signed negative .zero
    else if n.rank = 0 then
      if m.rank = 0 then .nan else .infinity negative
    else ofUnits negative (m.units * 2 ^ 1074) n.units

/-- The quotient of two whole numbers, rounded once; the divisor is not zero. -/
def ofQuotient (n d : Int) : Binary64 :=
  ofUnits (decide (n < 0) != decide (d < 0)) (n.natAbs * 2 ^ 1074) d.natAbs

end Binary64

end LanguageUsage
