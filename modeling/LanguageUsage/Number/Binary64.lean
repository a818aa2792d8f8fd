import LanguageUsage.Number.Natural

/-!
# Double-precision numbers

A number of the binary64 format is not-a-number, or a sign and a magnitude. The magnitudes, from
zero over the subnormal and normal ones to infinity, are numbered in order of size by their *rank*;
the rank is also what the format stores below the sign bit.

* `Magnitude`, `Binary64`, `Binary64.ofBits?`, `Binary64.toBits?`;
* `unitsOfRank`: the exact value of a magnitude, in units of `2 ^ -1074`, the least positive one;
* `Place`: where a number lies on the line, for exact comparison with whole numbers of any size.
-/

namespace LanguageUsage

/-- The rank of infinity: one more than the rank of the largest finite magnitude. -/
def infinityRank : Nat := 0x7FF0000000000000

/-- The exact value of the magnitude of a given rank, in units of `2 ^ -1074`. The first `2 ^ 53`
ranks are one unit apart; from there on the distance doubles every `2 ^ 52` ranks. -/
def unitsOfRank (rank : Nat) : Nat :=
  if rank < 2 ^ 52 then rank
  else (2 ^ 52 + rank % 2 ^ 52) * 2 ^ (rank / 2 ^ 52 - 1)

/-- A non-negative double-precision number, infinity included. -/
structure Magnitude where
  rank : Nat
  rank_le : rank ≤ infinityRank
  deriving DecidableEq, Repr

namespace Magnitude

instance : Inhabited Magnitude := ⟨⟨0, Nat.zero_le _⟩⟩

def zero : Magnitude := ⟨0, Nat.zero_le _⟩

def infinity : Magnitude := ⟨infinityRank, Nat.le_refl _⟩

def isInfinite (m : Magnitude) : Bool := m.rank == infinityRank

/-- The exact value in units of `2 ^ -1074`; for infinity, the least value that is out of range. -/
def units (m : Magnitude) : Nat := unitsOfRank m.rank

end Magnitude

/-- A double-precision number. -/
inductive Binary64
  | nan
  | signed (negative : Bool) (magnitude : Magnitude)
  deriving DecidableEq, Repr, Inhabited

namespace Binary64

/-- The number with the given 64 bits: the sign above, the rank below. -/
def ofBits (bits : Nat) : Binary64 :=
  if h : bits % 2 ^ 63 ≤ infinityRank then
    .signed (bits / 2 ^ 63 % 2 == 1) ⟨bits % 2 ^ 63, h⟩
  else .nan

/-- The 64 bits of the number; not-a-number has many, so none is given. -/
def toBits? : Binary64 → Option Nat
  | .nan => none
  | .signed negative m => some ((if negative then 2 ^ 63 else 0) + m.rank)

def infinity (negative : Bool) : Binary64 := .signed negative .infinity

/-- Both zeros. -/
def isZero : Binary64 → Bool
  | .nan => false
  | .signed _ m => m.rank == 0

end Binary64

/-- Where a number lies: beyond all finite numbers, or at a multiple of `2 ^ -1074`. -/
inductive Place
  | belowAll
  | units (n : Int)
  | aboveAll
  deriving DecidableEq, Repr

namespace Place

def le : Place → Place → Bool
  | .belowAll, _ => true
  | _, .aboveAll => true
  | .units m, .units n => decide (m ≤ n)
  | _, _ => false

def lt (p q : Place) : Bool := !q.le p

theorem le_trans {p q r : Place} (h : p.le q = true) (h' : q.le r = true) : p.le r = true := by
  cases p <;> cases q <;> cases r <;> simp_all [le]
  omega

end Place

/-- The place of a number on the line; not-a-number has none. -/
def Binary64.place? : Binary64 → Option Place
  | .nan => none
  | .signed false m => some (if m.isInfinite then .aboveAll else .units m.units)
  | .signed true m => some (if m.isInfinite then .belowAll else .units (-(m.units : Int)))

/-- The place of a whole number. -/
def Place.ofInt (n : Int) : Place := .units (n * 2 ^ 1074)

namespace Place

variable (m n : Int)

@[simp] theorem le_ofInt : (ofInt m).le (ofInt n) = decide (m ≤ n) := by
  have hpos : (0 : Int) < 2 ^ 1074 := Int.pow_pos (by decide)
  simp only [ofInt, le, decide_eq_decide]
  exact Int.mul_le_mul_right hpos

@[simp] theorem lt_ofInt : (ofInt m).lt (ofInt n) = decide (m < n) := by
  rw [lt, le_ofInt, ← decide_not, decide_eq_decide]
  omega

end Place

end LanguageUsage
