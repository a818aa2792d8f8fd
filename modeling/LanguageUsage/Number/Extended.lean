import LanguageUsage.Number.Shortest

/-!
# Extended precision

Numbers with significands of 64 bits, eleven more than those of doubles have. Sums, products and
quotients are rounded once, a half to the even neighbour. There is no bound on exponents, as none of
the computations made here comes near one.

* `Extended`, `Extended.ofRatio`, `Extended.add`, `Extended.mul`, `Extended.div`;
* `Magnitude.scaled`: fifteen digits of a magnitude, found by scaling it to below ten in extended
  precision. Mostly they are the nearest ones; the roundings on the way may lead to a neighbour.
-/

namespace LanguageUsage

/-- The number `significand * 2 ^ exponent`. -/
structure Extended where
  significand : Nat
  exponent : Int
  deriving DecidableEq, Repr, Inhabited

namespace Extended

/-- The number of bits of a significand. -/
def precision : Nat := 64

/-- `n / d * 2 ^ exponent`, rounded; the quotient has at least as many bits as a significand, or `d` is
one. -/
def ofRatio (n d : Nat) (exponent : Int) : Extended :=
  let surplus := (n / d).log2 + 1 - precision
  ⟨roundEven n (d * 2 ^ surplus), exponent + surplus⟩

/-- The double with the given bits, which is finite. -/
def ofBits (bits : Nat) : Extended := ⟨unitsOfRank bits, -1074⟩

/-- Both numbers in units of the lesser exponent. -/
def aligned (a b : Extended) : Nat × Nat × Int :=
  let e := min a.exponent b.exponent
  (a.significand * 2 ^ (a.exponent - e).toNat, b.significand * 2 ^ (b.exponent - e).toNat, e)

def lt (a b : Extended) : Bool :=
  let (m, n, _) := aligned a b
  decide (m < n)

def add (a b : Extended) : Extended :=
  let (m, n, e) := aligned a b
  ofRatio (m + n) 1 e

def mul (a b : Extended) : Extended :=
  ofRatio (a.significand * b.significand) 1 (a.exponent + b.exponent)

def div (a b : Extended) : Extended :=
  ofRatio (a.significand * 2 ^ (2 * precision)) b.significand
    (a.exponent - b.exponent - 2 * precision)

/-- The whole part. -/
def floor (a : Extended) : Nat :=
  match a.exponent with
  | .ofNat e => a.significand * 2 ^ e
  | .negSucc e => a.significand / 2 ^ (e + 1)

/-- What is left without the whole part. -/
def fraction (a : Extended) : Extended :=
  match a.exponent with
  | .ofNat e => ⟨0, e⟩
  | .negSucc e => ⟨a.significand % 2 ^ (e + 1), .negSucc e⟩

/-- A whole number that is a double. -/
def ofNat (n : Nat) : Extended := ⟨n, 0⟩

/-- The double nearest to a power of ten. -/
def powerOfTen (exponent : Int) : Extended :=
  match Binary64.ofDecimal false 1 exponent with
  | .signed _ m => ofBits m.rank
  | .nan => ⟨0, 0⟩

/-! ### Scaling -/

/-- Multiply `scale` by a power of ten as long as `a` is no less than the product. The second
component counts the zeros. -/
def scaleUp (a : Extended) (zeros : Nat) : Nat → Extended × Nat → Extended × Nat
  | 0, s => s
  | fuel + 1, (scale, exponent) =>
    let larger := (powerOfTen zeros).mul scale
    if a.lt larger then (scale, exponent) else scaleUp a zeros fuel (larger, exponent + zeros)

/-- Multiply a number by a power of ten as long as it is below `limit`. -/
def raise (limit : Extended) (zeros : Nat) : Nat → Extended × Int → Extended × Int
  | 0, a => a
  | fuel + 1, (a, exponent) =>
    if a.lt limit then raise limit zeros fuel (a.mul (powerOfTen zeros), exponent - zeros)
    else (a, exponent)

/-- A positive number in the range of doubles as one from one to ten and a power of ten. -/
def normalized (a : Extended) : Extended × Int :=
  let (scale, exponent) :=
    scaleUp a 1 10 (scaleUp a 10 10 (scaleUp a 100 4 (ofNat 1, 0)))
  raise (ofNat 1) 1 10 (raise (powerOfTen (-8)) 8 50 (a.div scale, exponent))

/-- The first digits of a number below ten, as one whole number. -/
def leadingDigits : Nat → Extended → Nat
  | 0, _ => 0
  | count + 1, a =>
    a.floor * 10 ^ count + leadingDigits count (a.fraction.mul (ofNat 10))

end Extended

namespace Magnitude

/-- The number of digits that `scaled` gives. -/
def scaledDigits : Nat := 15

/-- Half a unit of the last digit of a number from one to ten, computed as `5e-5` times `1e-10`. -/
def halfUnit : Extended := .ofBits 0x3cf6849b86a12b9c

/-- Fifteen digits of a finite magnitude that is not zero, without zeros at the end. -/
def scaled (m : Magnitude) : Decimal :=
  let (a, exponent) := Extended.normalized (.ofRatio m.units 1 (-1074))
  let a := a.add halfUnit
  let (a, exponent) :=
    if a.lt (.ofNat 10) then (a, exponent) else (a.mul (Extended.powerOfTen (-1)), exponent + 1)
  Decimal.dropZeros scaledDigits
    ⟨a.leadingDigits scaledDigits, exponent - (scaledDigits - 1)⟩

end Magnitude

end LanguageUsage
