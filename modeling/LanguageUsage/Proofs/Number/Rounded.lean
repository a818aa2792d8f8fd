import LanguageUsage.Number.Rounding
import Mathlib.Tactic.Common

/-!
# Rounding to 53 digits

What a double keeps of a whole number is its first 53 binary digits, the last of them rounded. So sums of doubles can
be followed by whole numbers.

* `rounded`: a whole number rounded to 53 digits;
* `unitsOfRank_nearestRank`: the nearest magnitude to a number of units has this value;
* `rounded_mul_pow`: the digits kept do not depend on the unit;
* `le_rounded`, `le_add_rounded`: nothing is rounded to below a number of 53 digits, and no number of 53 digits lies
  further down than half a step;
* `nearestRank_unitsOfRank_add`: less than half a step is lost in a sum;
* `two_pow_le_rounded_add`: a sum that reaches `2 ^ 63` reaches it after all roundings.
-/

namespace LanguageUsage

variable {n d c k r q s t a : Nat}

/-! ### Quotients -/

theorem div_le_roundEven (n d : Nat) : n / d ≤ roundEven n d := by
  simp only [roundEven]
  split_ifs <;> omega

theorem roundEven_le (n d : Nat) : roundEven n d ≤ n / d + 1 := by
  simp only [roundEven]
  split_ifs <;> omega

/-- Less than half is dropped. -/
theorem roundEven_mul_add (h : 2 * r < d) : roundEven (k * d + r) d = k := by
  have hd : 0 < d := by omega
  have hdiv : (k * d + r) / d = k := by
    rw [Nat.mul_comm, Nat.mul_add_div hd, Nat.div_eq_of_lt (by omega), Nat.add_zero]
  have hmod : (k * d + r) % d = r := by
    rw [Nat.mul_add_mod_self_right, Nat.mod_eq_of_lt (by omega)]
  rw [roundEven, hdiv, hmod]
  exact if_pos h

theorem roundEven_mul (hd : 0 < d) : roundEven (k * d) d = k := by
  simpa using roundEven_mul_add (k := k) (r := 0) hd

theorem roundEven_mul_right (hc : 0 < c) (n d : Nat) : roundEven (n * c) (d * c) = roundEven n d := by
  have hdouble : ∀ x y : Nat, 2 * (x * c) < y * c ↔ 2 * x < y := fun x y => by
    rw [← Nat.mul_assoc]
    exact Nat.mul_lt_mul_right hc
  have hdouble' : ∀ x y : Nat, y * c < 2 * (x * c) ↔ y < 2 * x := fun x y => by
    rw [← Nat.mul_assoc]
    exact Nat.mul_lt_mul_right hc
  simp only [roundEven, Nat.mul_div_mul_right _ _ hc, Nat.mul_mod_mul_right, hdouble, hdouble']

/-- The quotient is at most half below. -/
theorem le_roundEven_mul (hd : 0 < d) (n : Nat) : 2 * n ≤ 2 * (roundEven n d * d) + d := by
  have hsum := Nat.div_add_mod n d
  have hlt := Nat.mod_lt n hd
  rw [Nat.mul_comm] at hsum
  simp only [roundEven]
  split_ifs
  · omega
  · rw [Nat.add_mul]
    omega
  · rw [Nat.add_mul]
    omega

/-! ### Digits -/

theorem doublings_of_lt (h : q < 2 ^ 53) : doublings q = 0 := if_pos h

/-- A number of 53 digits and as many more as the distance has doubled. -/
theorem doublings_eq (h : 2 ^ (52 + s) ≤ q) (h' : q < 2 ^ (53 + s)) : doublings q = s := by
  have hlog : q.log2 = 52 + s :=
    (Nat.log2_eq_iff (by have := Nat.two_pow_pos (52 + s); omega)).2 ⟨h, by rwa [Nat.add_right_comm]⟩
  rw [doublings, hlog]
  split
  · next hlt =>
    have hpow : 2 ^ (52 + s) < 2 ^ 53 := Nat.lt_of_le_of_lt h hlt
    have := (Nat.pow_lt_pow_iff_right (by decide)).1 hpow
    omega
  · omega

theorem doublings_spec (h : 2 ^ 53 ≤ q) : 2 ^ (52 + doublings q) ≤ q ∧ q < 2 ^ (53 + doublings q) := by
  have hq : q ≠ 0 := by omega
  have hlog : 53 ≤ q.log2 := (Nat.le_log2 hq).2 h
  have hdoublings : doublings q = q.log2 - 52 := if_neg (Nat.not_lt.2 h)
  constructor
  · have hexp : 52 + doublings q = q.log2 := by omega
    rw [hexp]
    exact Nat.log2_self_le hq
  · have hexp : 53 + doublings q = q.log2 + 1 := by omega
    rw [hexp]
    exact Nat.lt_log2_self

theorem doublings_le (h : q < 2 ^ (53 + s)) : doublings q ≤ s := by
  by_cases hq : q < 2 ^ 53
  · rw [doublings_of_lt hq]
    exact Nat.zero_le s
  · have hpow := Nat.lt_of_le_of_lt (doublings_spec (Nat.not_lt.1 hq)).1 h
    have := (Nat.pow_lt_pow_iff_right (by decide)).1 hpow
    omega

/-- `q` rounded to 53 digits. -/
def rounded (q : Nat) : Nat := roundEven q (2 ^ doublings q) * 2 ^ doublings q

/-- A quotient keeps at least 53 digits, if it has as many. -/
theorem le_digits (h : 2 ^ 53 ≤ n / d) : 2 ^ 52 ≤ roundEven n (d * 2 ^ doublings (n / d)) := by
  have hle := (doublings_spec h).1
  refine Nat.le_trans ?_ (div_le_roundEven _ _)
  rw [← Nat.div_div_eq_div_mul, Nat.le_div_iff_mul_le (Nat.two_pow_pos _), ← Nat.pow_add]
  exact hle

/-- A quotient keeps no more than 53 digits, or the least number of 54. -/
theorem digits_le (n d : Nat) : roundEven n (d * 2 ^ doublings (n / d)) ≤ 2 ^ 53 := by
  refine Nat.le_trans (roundEven_le _ _) (Nat.succ_le_of_lt ?_)
  rw [← Nat.div_div_eq_div_mul, Nat.div_lt_iff_lt_mul (Nat.two_pow_pos _), ← Nat.pow_add]
  by_cases h : n / d < 2 ^ 53
  · rwa [doublings_of_lt h]
  · exact (doublings_spec (Nat.not_lt.1 h)).2

/-- The digits that are kept. -/
theorem digits_bounds (h : 2 ^ 53 ≤ q) :
    2 ^ 52 ≤ roundEven q (2 ^ doublings q) ∧ roundEven q (2 ^ doublings q) ≤ 2 ^ 53 := by
  have hle := le_digits (n := q) (d := 1)
  have hle' := digits_le q 1
  rw [Nat.div_one, Nat.one_mul] at hle hle'
  exact ⟨hle h, hle'⟩

theorem rounded_of_dvd (h : 2 ^ doublings q ∣ q) : rounded q = q := by
  obtain ⟨k, hk⟩ := h
  rw [Nat.mul_comm] at hk
  have hdigits : roundEven q (2 ^ doublings q) = k := by
    conv_lhs => arg 1; rw [hk]
    exact roundEven_mul (Nat.two_pow_pos _)
  rw [rounded, hdigits, ← hk]

theorem rounded_of_lt (h : q < 2 ^ 53) : rounded q = q :=
  rounded_of_dvd (by rw [doublings_of_lt h]; exact Nat.one_dvd q)

/-- The digits kept do not depend on the unit. -/
theorem rounded_mul_pow (q t : Nat) : rounded (q * 2 ^ t) = rounded q * 2 ^ t := by
  by_cases hq : q < 2 ^ 53
  · rw [rounded_of_lt hq]
    apply rounded_of_dvd
    -- the distance of neighbours is at most the unit
    have hle : doublings (q * 2 ^ t) ≤ t := by
      refine doublings_le ?_
      rw [Nat.pow_add]
      exact Nat.mul_lt_mul_of_pos_right hq (Nat.two_pow_pos t)
    exact Nat.dvd_trans (Nat.pow_dvd_pow 2 hle) (Nat.dvd_mul_left _ q)
  · obtain ⟨hle, hlt⟩ := doublings_spec (Nat.not_lt.1 hq)
    have hdoublings : doublings (q * 2 ^ t) = doublings q + t := by
      apply doublings_eq
      · rw [← Nat.add_assoc, Nat.pow_add]
        exact Nat.mul_le_mul_right _ hle
      · rw [← Nat.add_assoc, Nat.pow_add]
        exact Nat.mul_lt_mul_of_pos_right hlt (Nat.two_pow_pos t)
    rw [rounded, hdoublings, Nat.pow_add, roundEven_mul_right (Nat.two_pow_pos t), ← Nat.mul_assoc, rounded]

/-- Nothing is rounded to below a number of 53 digits. -/
theorem le_rounded (ha : a ≤ 2 ^ 53) (h : a * 2 ^ t ≤ q) : a * 2 ^ t ≤ rounded q := by
  by_cases hq : q < 2 ^ 53
  · rwa [rounded_of_lt hq]
  · obtain ⟨hdigits, -⟩ := digits_bounds (Nat.not_lt.1 hq)
    rw [rounded]
    by_cases hst : doublings q ≤ t
    · have hpow : 2 ^ t = 2 ^ (t - doublings q) * 2 ^ doublings q := by rw [← Nat.pow_add, Nat.sub_add_cancel hst]
      rw [hpow, ← Nat.mul_assoc] at h ⊢
      have hquotient := (Nat.le_div_iff_mul_le (Nat.two_pow_pos _)).2 h
      exact Nat.mul_le_mul_right _ (Nat.le_trans hquotient (div_le_roundEven _ _))
    · -- the number is as long as the digits that are kept
      calc a * 2 ^ t ≤ 2 ^ 53 * 2 ^ t := Nat.mul_le_mul_right _ ha
        _ = 2 ^ 52 * 2 ^ (t + 1) := by rw [Nat.pow_succ]; omega
        _ ≤ 2 ^ 52 * 2 ^ doublings q := Nat.mul_le_mul_left _ (Nat.pow_le_pow_right (by decide) (by omega))
        _ ≤ roundEven q (2 ^ doublings q) * 2 ^ doublings q := Nat.mul_le_mul_right _ hdigits

/-! ### Ranks -/

/-- The values of the ranks at one distance. -/
theorem unitsOfRank_steps (hk : 2 ^ 52 ≤ k) (hk' : k ≤ 2 ^ 53) : unitsOfRank (s * 2 ^ 52 + k) = k * 2 ^ s := by
  rw [unitsOfRank, if_neg (by omega)]
  rcases Nat.lt_or_eq_of_le hk' with hlt | rfl
  · have hdiv : (s * 2 ^ 52 + k) / 2 ^ 52 - 1 = s := by omega
    have hmod : 2 ^ 52 + (s * 2 ^ 52 + k) % 2 ^ 52 = k := by omega
    rw [hdiv, hmod]
  · have hdiv : (s * 2 ^ 52 + 2 ^ 53) / 2 ^ 52 - 1 = s + 1 := by omega
    have hmod : 2 ^ 52 + (s * 2 ^ 52 + 2 ^ 53) % 2 ^ 52 = 2 ^ 52 := by omega
    rw [hdiv, hmod, Nat.pow_succ]
    omega

/-- The magnitudes that are no less than a power of two. -/
theorem le_unitsOfRank_iff : 2 ^ 52 * 2 ^ s ≤ unitsOfRank k ↔ (s + 1) * 2 ^ 52 ≤ k := by
  have hs : 1 ≤ 2 ^ s := Nat.one_le_two_pow
  by_cases hk : k < 2 ^ 52
  · rw [unitsOfRank, if_pos hk]
    omega
  · obtain ⟨e, he⟩ : ∃ e, k / 2 ^ 52 = e + 1 := ⟨k / 2 ^ 52 - 1, by omega⟩
    rw [unitsOfRank, if_neg hk, he, Nat.add_sub_cancel]
    constructor
    · intro h
      by_contra hlt
      have hpow : 2 ^ (e + 1) ≤ 2 ^ s := Nat.pow_le_pow_right (by decide) (by omega)
      rw [Nat.pow_succ] at hpow
      have hdigits : (2 ^ 52 + k % 2 ^ 52) * 2 ^ e < 2 ^ 53 * 2 ^ e :=
        Nat.mul_lt_mul_of_pos_right (by omega) (Nat.two_pow_pos e)
      omega
    · intro h
      have hpow : 2 ^ s ≤ 2 ^ e := Nat.pow_le_pow_right (by decide) (by omega)
      exact Nat.mul_le_mul (Nat.le_add_right _ _) hpow

theorem nearestRank_one (q : Nat) : nearestRank q 1 = doublings q * 2 ^ 52 + roundEven q (2 ^ doublings q) := by
  rw [nearestRank, Nat.div_one, Nat.one_mul]

/-- **The nearest magnitude to a number of units** has the value of this number, rounded. -/
theorem unitsOfRank_nearestRank (q : Nat) : unitsOfRank (nearestRank q 1) = rounded q := by
  rw [nearestRank_one]
  by_cases hq : q < 2 ^ 53
  · have hrank : doublings q * 2 ^ 52 + roundEven q (2 ^ doublings q) = 0 * 2 ^ 52 + q := by
      have hexact := roundEven_mul (k := q) Nat.one_pos
      rw [doublings_of_lt hq]
      simpa using hexact
    rw [hrank, rounded_of_lt hq]
    by_cases hsmall : q < 2 ^ 52
    · rw [Nat.zero_mul, Nat.zero_add]
      exact if_pos hsmall
    · rw [unitsOfRank_steps (by omega) (by omega), Nat.pow_zero, Nat.mul_one]
  · obtain ⟨hle, hle'⟩ := digits_bounds (Nat.not_lt.1 hq)
    exact unitsOfRank_steps hle hle'

theorem nearestRank_le (h : q < 2 ^ 53 * 2 ^ s) : nearestRank q 1 ≤ s * 2 ^ 52 + 2 ^ 53 := by
  rw [← Nat.pow_add] at h
  have hs : doublings q * 2 ^ 52 ≤ s * 2 ^ 52 := Nat.mul_le_mul_right _ (doublings_le h)
  have hdigits := digits_le q 1
  rw [Nat.div_one, Nat.one_mul] at hdigits
  rw [nearestRank_one]
  exact Nat.add_le_add hs hdigits

/-- Less than half a step is lost. -/
theorem nearestRank_unitsOfRank_add (hk : (s + 1) * 2 ^ 52 ≤ k) (hr : 2 * r < 2 ^ s) :
    nearestRank (unitsOfRank k + r) 1 = k := by
  have hrank : unitsOfRank k = (2 ^ 52 + k % 2 ^ 52) * 2 ^ (k / 2 ^ 52 - 1) := if_neg (by omega)
  have hk' : (k / 2 ^ 52 - 1) * 2 ^ 52 + (2 ^ 52 + k % 2 ^ 52) = k := by omega
  have hs : s ≤ k / 2 ^ 52 - 1 := by omega
  have hj : 2 ^ 52 ≤ 2 ^ 52 + k % 2 ^ 52 := Nat.le_add_right _ _
  have hj' : 2 ^ 52 + k % 2 ^ 52 + 1 ≤ 2 ^ 53 := by omega
  rw [hrank]
  generalize k / 2 ^ 52 - 1 = e at hk' hs
  generalize 2 ^ 52 + k % 2 ^ 52 = j at hk' hj hj'
  have hr' : 2 * r < 2 ^ e := Nat.lt_of_lt_of_le hr (Nat.pow_le_pow_right (by decide) hs)
  have hdoublings : doublings (j * 2 ^ e + r) = e := by
    apply doublings_eq
    · rw [Nat.pow_add]
      exact Nat.le_trans (Nat.mul_le_mul_right _ hj) (Nat.le_add_right _ _)
    · calc j * 2 ^ e + r < (j + 1) * 2 ^ e := by rw [Nat.add_mul, Nat.one_mul]; omega
        _ ≤ 2 ^ 53 * 2 ^ e := Nat.mul_le_mul_right _ hj'
        _ = 2 ^ (53 + e) := (Nat.pow_add 2 53 e).symm
  rw [nearestRank_one, hdoublings, roundEven_mul_add hr', hk']

/-! ### Sums that leave the range of 64 bits -/

/-- Half a step below `2 ^ 63` is rounded up. -/
theorem two_pow_le_rounded (h : 2 ^ 63 - 2 ^ 9 ≤ q) : 2 ^ 63 ≤ rounded q := by
  by_cases hq : 2 ^ 63 ≤ q
  · exact le_rounded (a := 1) (t := 63) (by decide) (by omega)
  · have hdoublings : doublings q = 10 := doublings_eq (by omega) (by omega)
    have hdigits : roundEven q (2 ^ 10) = 2 ^ 53 := by
      simp only [roundEven]
      split_ifs <;> omega
    have hrounded : rounded q = 2 ^ 53 * 2 ^ 10 := by rw [rounded, hdoublings, hdigits]
    exact Nat.le_trans (by decide) (Nat.le_of_eq hrounded.symm)

/-- A sum that reaches `2 ^ 63` reaches it when both numbers are rounded, and their sum is. -/
theorem two_pow_le_rounded_add {m n : Nat} (hm : m < 2 ^ 63) (hn : n < 2 ^ 63) (h : 2 ^ 63 ≤ m + n) :
    2 ^ 63 ≤ rounded (rounded m + rounded n) := by
  wlog hmn : m ≤ n generalizing m n
  · rw [Nat.add_comm]
    exact this hn hm (by omega) (by omega)
  · apply two_pow_le_rounded
    have hdoublings : doublings n = 10 := doublings_eq (by omega) (by omega)
    obtain ⟨hdigits, -⟩ := digits_bounds (q := n) (by omega)
    have hbelow := le_roundEven_mul (d := 2 ^ 10) (by decide) n
    rw [hdoublings] at hdigits
    have hrounded : rounded n = roundEven n (2 ^ 10) * 2 ^ 10 := by rw [rounded, hdoublings]
    rw [hrounded]
    generalize roundEven n (2 ^ 10) = j at hdigits hbelow
    by_cases hj : 2 ^ 53 ≤ j
    · omega
    · -- what is missing, less half a step of the larger number, has 53 digits, and the lesser number reaches it
      have hlesser := le_rounded (a := 2 * (2 ^ 53 - j) - 1) (t := 9) (q := m) (by omega) (by omega)
      omega

end LanguageUsage
