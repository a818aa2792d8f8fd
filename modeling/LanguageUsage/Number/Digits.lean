import LanguageUsage.Number.Basic

/-!
# Written numbers

Whole numbers are written in digits, of which there may be no more than a certain number; doubles can
always be written.

* `digitLimit`: the limit that holds where no other one is set;
* `fits`: a natural number can be written with so many digits; `fits_iff`: it is below that power of ten;
* `Number.isWritable`: a number can be written within a limit, if there is one.
-/

namespace LanguageUsage

/-- How many digits a whole number may have. -/
def digitLimit : Nat := 4300

/-- The number has no more than so many digits. -/
def fits : (digits n : Nat) → Bool
  | 0, n => n == 0
  | digits + 1, n => decide (n < 10) || fits digits (n / 10)

theorem fits_iff {digits n : Nat} : fits digits n = true ↔ n < 10 ^ digits := by
  induction digits generalizing n with
  | zero => simp [fits]
  | succ digits ih =>
    rw [fits, Bool.or_eq_true, decide_eq_true_eq, ih, Nat.div_lt_iff_lt_mul (by decide), ← Nat.pow_succ]
    have hten : 10 ≤ 10 ^ (digits + 1) := Nat.le_self_pow (by omega) 10
    omega

/-- The number can be written within the limit; the sign does not count. -/
def Number.isWritable (limit : Option Nat) : Number → Bool
  | .whole n => limit.all fun digits => fits digits n.natAbs
  | .real _ => true

theorem Number.isWritable_whole {limit : Option Nat} {n : Int} :
    (Number.whole n).isWritable limit = true ↔ ∀ digits ∈ limit, n.natAbs < 10 ^ digits := by
  cases limit with
  | none => simp [isWritable]
  | some digits => simp [isWritable, fits_iff]

end LanguageUsage
