/-!
# Blocks of characters

Scripts, blank characters and the widths of characters are all given as ranges of code points.

* `Block` is one such range, both ends included;
* `Block.Holds` and `Block.anyHolds` ask whether a character lies in it, or in one of several.
-/

namespace LanguageUsage.Text

/-- A range of code points, both ends included. -/
structure Block where
  first : Nat
  last : Nat
  deriving DecidableEq, Repr

namespace Block

/-- `c` lies in the block. -/
def Holds (b : Block) (c : Char) : Prop := b.first ≤ c.toNat ∧ c.toNat ≤ b.last

instance (b : Block) (c : Char) : Decidable (b.Holds c) :=
  inferInstanceAs (Decidable (_ ∧ _))

/-- `c` lies in one of the blocks. -/
def anyHolds (bs : List Block) (c : Char) : Bool := bs.any fun b => decide (b.Holds c)

theorem anyHolds_eq_true_iff {bs : List Block} {c : Char} :
    anyHolds bs c = true ↔ ∃ b ∈ bs, b.Holds c := by
  simp [anyHolds]

end Block

end LanguageUsage.Text
