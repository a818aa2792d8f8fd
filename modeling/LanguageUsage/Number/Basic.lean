import LanguageUsage.Number.Rounding

/-!
# Numbers

A number is a whole number of any size, or a double. The two kinds are compared by their exact
values; a sum or quotient in which a double takes part is a double.

* `Number`, `Number.lt`, `Number.le`, `Number.eq`;
* `Number.add?`, `Number.sum?`, `Number.div?`, which fail when a whole number is too large to be
  made a double.
-/

namespace LanguageUsage

/-- A whole number of any size, or a double. -/
inductive Number
  | whole (n : Int)
  | real (x : Binary64)
  deriving DecidableEq, Repr, Inhabited

namespace Number

/-- Where the number lies on the line. -/
def place? : Number → Option Place
  | .whole n => some (.ofInt n)
  | .real x => x.place?

/-- A comparison by place, false as soon as one side is not-a-number. -/
def compareBy (r : Place → Place → Bool) (a b : Number) : Bool :=
  match a.place?, b.place? with
  | some p, some q => r p q
  | _, _ => false

def le (a b : Number) : Bool := compareBy Place.le a b

def lt (a b : Number) : Bool := compareBy Place.lt a b

/-- Equality of value, across the two kinds. -/
def eq (a b : Number) : Bool := compareBy (fun p q => decide (p = q)) a b

def isZero : Number → Bool
  | .whole n => n == 0
  | .real x => x.isZero

/-- As a double. -/
def toBinary64? : Number → Option Binary64
  | .whole n => Binary64.ofInt? n
  | .real x => some x

/-- The sum: exact for whole numbers, rounded if a double takes part. -/
def add? : Number → Number → Option Number
  | .whole m, .whole n => some (.whole (m + n))
  | a, b => do return .real ((← a.toBinary64?).add (← b.toBinary64?))

/-- The sum of a list, from the left. -/
def sum? (ns : List Number) : Option Number := ns.foldlM add? (.whole 0)

/-- The quotient, rounded once when both are whole. -/
def div? : Number → Number → Option Binary64
  | .whole m, .whole n => some (.ofQuotient m n)
  | a, b => do return (← a.toBinary64?).div (← b.toBinary64?)

@[simp] theorem add?_whole (m n : Int) : add? (.whole m) (.whole n) = some (.whole (m + n)) := rfl

@[simp] theorem place?_whole (n : Int) : place? (.whole n) = some (.ofInt n) := rfl

@[simp] theorem le_whole (m n : Int) : le (.whole m) (.whole n) = decide (m ≤ n) :=
  Place.le_ofInt m n

@[simp] theorem lt_whole (m n : Int) : lt (.whole m) (.whole n) = decide (m < n) :=
  Place.lt_ofInt m n

end Number

end LanguageUsage
