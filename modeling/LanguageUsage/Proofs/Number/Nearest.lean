import LanguageUsage.Proofs.Number.Rounded

/-!
# The nearest double to a fraction

A fraction that lies between the middles from a double to its two neighbours is rounded to this double.

* `unitsOfRank_add`: the value of a rank, by the step from it to the next one;
* `Near`: a fraction lies between the middles;
* `nearestRank_of_near`: it is rounded to the rank between them;
* `nearestRank_congr`: how a fraction is written does not matter.
-/

namespace LanguageUsage

variable {n n' d d' j k s : Nat}

/-! ### Steps -/

/-- Every rank lies `j` steps of `2 ^ s` units above zero, and at least `2 ^ 52` of them if they are not the least ones. -/
theorem exists_steps (k : Nat) : ∃ s j, k = s * 2 ^ 52 + j ∧ j < 2 ^ 53 ∧ (s = 0 ∨ 2 ^ 52 ≤ j) :=
  ⟨k / 2 ^ 52 - 1, k - (k / 2 ^ 52 - 1) * 2 ^ 52, by omega, by omega, by omega⟩

theorem unitsOfRank_add (hj : s = 0 ∨ 2 ^ 52 ≤ j) (hj' : j ≤ 2 ^ 53) : unitsOfRank (s * 2 ^ 52 + j) = j * 2 ^ s := by
  by_cases hnormal : 2 ^ 52 ≤ j
  · exact unitsOfRank_steps hnormal hj'
  · obtain rfl : s = 0 := hj.resolve_right hnormal
    rw [unitsOfRank, if_pos (by omega)]
    omega

/-- The magnitudes are in the order of their ranks. -/
theorem unitsOfRank_lt_succ (k : Nat) : unitsOfRank k < unitsOfRank (k + 1) := by
  obtain ⟨s, j, rfl, hj', hj⟩ := exists_steps k
  rw [Nat.add_assoc, unitsOfRank_add hj (Nat.le_of_lt hj'), unitsOfRank_add (by omega) hj']
  exact Nat.mul_lt_mul_of_pos_right (Nat.lt_succ_self j) (Nat.two_pow_pos s)

theorem unitsOfRank_mono (h : k ≤ n) : unitsOfRank k ≤ unitsOfRank n := by
  induction h with
  | refl => exact Nat.le_refl _
  | step _ ih => exact Nat.le_trans ih (Nat.le_of_lt (unitsOfRank_lt_succ _))

/-! ### Rounding -/

/-- The quotient is at most half away from `j`, and less if `j` is odd. -/
theorem roundEven_eq (hlow : 2 * (j * d) ≤ 2 * n + d) (hhigh : 2 * n ≤ 2 * (j * d) + d)
    (hodd : j % 2 = 1 → 2 * (j * d) < 2 * n + d ∧ 2 * n < 2 * (j * d) + d) (hd : 0 < d) : roundEven n d = j := by
  have hsum := Nat.div_add_mod n d
  have hmod := Nat.mod_lt n hd
  rw [Nat.mul_comm] at hsum
  simp only [roundEven]
  generalize n / d = q at *
  generalize n % d = r at *
  -- the quotient is `j` or one less
  have hle : q ≤ j := by
    by_contra hlt
    have hmul : (j + 1) * d ≤ q * d := Nat.mul_le_mul_right d (by omega)
    rw [Nat.add_mul] at hmul
    omega
  have hge : j ≤ q + 1 := by
    by_contra hlt
    have hmul : (q + 2) * d ≤ j * d := Nat.mul_le_mul_right d (by omega)
    rw [Nat.add_mul] at hmul
    omega
  rcases Nat.lt_or_eq_of_le hle with hlt | rfl
  · obtain rfl : j = q + 1 := by omega
    rw [Nat.add_mul] at hlow hhigh hodd
    split_ifs <;> omega
  · split_ifs <;> omega

theorem nearestRank_mul_right (hd : 0 < d') (n d : Nat) : nearestRank (n * d') (d * d') = nearestRank n d := by
  simp only [nearestRank, Nat.mul_div_mul_right _ _ hd, Nat.mul_right_comm d d', roundEven_mul_right hd]

/-- How a fraction is written does not matter. -/
theorem nearestRank_congr (hd : 0 < d) (hd' : 0 < d') (h : n * d' = n' * d) : nearestRank n d = nearestRank n' d' := by
  rw [← nearestRank_mul_right hd' n d, ← nearestRank_mul_right hd n' d', h, Nat.mul_comm d d']

theorem nearestRank_eq (hs : doublings (n / d) = s) (hj : roundEven n (d * 2 ^ s) = j) :
    nearestRank n d = s * 2 ^ 52 + j := by
  simp only [nearestRank, hs, hj]

/-! ### Middles -/

/-- The fraction `n / d` lies between the middles from the rank `k` to its neighbours; these belong to it if `k` is
even. -/
def Near (k n d : Nat) : Prop :=
  if k % 2 = 0 then
    (unitsOfRank (k - 1) + unitsOfRank k) * d ≤ 2 * n ∧ 2 * n ≤ (unitsOfRank k + unitsOfRank (k + 1)) * d
  else (unitsOfRank (k - 1) + unitsOfRank k) * d < 2 * n ∧ 2 * n < (unitsOfRank k + unitsOfRank (k + 1)) * d

theorem Near.low (h : Near k n d) : (unitsOfRank (k - 1) + unitsOfRank k) * d ≤ 2 * n := by
  rw [Near] at h
  split at h <;> omega

theorem Near.high (h : Near k n d) : 2 * n ≤ (unitsOfRank k + unitsOfRank (k + 1)) * d := by
  rw [Near] at h
  split at h <;> omega

theorem Near.lt (h : Near k n d) (hk : k % 2 = 1) :
    (unitsOfRank (k - 1) + unitsOfRank k) * d < 2 * n ∧ 2 * n < (unitsOfRank k + unitsOfRank (k + 1)) * d := by
  rwa [Near, if_neg (by omega)] at h

/-- The step below is as long as the one above, unless it is the last before the distance doubles. -/
theorem unitsOfRank_pred (hj : s = 0 ∨ 2 ^ 52 < j) (hj' : j ≤ 2 ^ 53) :
    j * 2 ^ s ≤ unitsOfRank (s * 2 ^ 52 + j - 1) + 2 ^ s := by
  rcases Nat.eq_zero_or_pos j with rfl | hpos
  · simp
  · have hrank : s * 2 ^ 52 + j - 1 = s * 2 ^ 52 + (j - 1) := by omega
    have hstep : (j - 1) * 2 ^ s + 2 ^ s = j * 2 ^ s := by
      rw [← Nat.succ_mul, Nat.succ_eq_add_one, Nat.sub_add_cancel hpos]
    rw [hrank, unitsOfRank_add (by omega) (by omega)]
    exact Nat.le_of_eq hstep.symm

/-- The step below is half as long where the distance has doubled. -/
theorem nearestRank_of_near_doubled (hd : 0 < d) (h : Near ((s + 1) * 2 ^ 52 + 2 ^ 52) n d)
    (hbelow : n / d < 2 ^ (53 + s)) : nearestRank n d = (s + 1) * 2 ^ 52 + 2 ^ 52 := by
  have hrank : (s + 1) * 2 ^ 52 + 2 ^ 52 = s * 2 ^ 52 + 2 ^ 53 := by omega
  have hprev : s * 2 ^ 52 + 2 ^ 53 - 1 = s * 2 ^ 52 + (2 ^ 53 - 1) := by omega
  have hlow := h.low
  rw [hrank, hprev, unitsOfRank_add (by omega) (by omega), unitsOfRank_add (by omega) (Nat.le_refl _), ← Nat.add_mul,
    Nat.mul_assoc, Nat.mul_comm (2 ^ s)] at hlow
  have hlt := (Nat.div_lt_iff_lt_mul hd).1 hbelow
  rw [Nat.pow_add, Nat.mul_assoc, Nat.mul_comm (2 ^ s)] at hlt
  have hD : 0 < d * 2 ^ s := Nat.mul_pos hd (Nat.two_pow_pos s)
  rw [hrank]
  refine nearestRank_eq (doublings_eq ?_ hbelow) (roundEven_eq ?_ ?_ ?_ hD)
  · rw [Nat.le_div_iff_mul_le hd, Nat.pow_add, Nat.mul_assoc, Nat.mul_comm (2 ^ s)]
    omega
  · omega
  · omega
  · omega

/-- Both middles in steps of `2 ^ s` units. -/
theorem Near.in_steps (h : Near (s * 2 ^ 52 + j) n d) (hj : s = 0 ∨ 2 ^ 52 ≤ j) (hj' : j < 2 ^ 53) :
    unitsOfRank (s * 2 ^ 52 + j - 1) * d + j * (d * 2 ^ s) ≤ 2 * n ∧ 2 * n ≤ 2 * (j * (d * 2 ^ s)) + d * 2 ^ s ∧
      (j % 2 = 1 → unitsOfRank (s * 2 ^ 52 + j - 1) * d + j * (d * 2 ^ s) < 2 * n ∧
        2 * n < 2 * (j * (d * 2 ^ s)) + d * 2 ^ s) := by
  have hhere : unitsOfRank (s * 2 ^ 52 + j) * d = j * (d * 2 ^ s) := by
    rw [unitsOfRank_add hj (Nat.le_of_lt hj'), Nat.mul_assoc, Nat.mul_comm (2 ^ s)]
  have hnext : unitsOfRank (s * 2 ^ 52 + j + 1) * d = j * (d * 2 ^ s) + d * 2 ^ s := by
    rw [Nat.add_assoc, unitsOfRank_add (j := j + 1) (by omega) hj', Nat.mul_assoc, Nat.mul_comm (2 ^ s), Nat.add_mul,
      Nat.one_mul]
  have hlow := h.low
  have hhigh := h.high
  have hodd := h.lt
  rw [Nat.add_mul, hhere] at hlow hodd
  rw [Nat.add_mul, hhere, hnext] at hhigh hodd
  refine ⟨hlow, by omega, fun h => ?_⟩
  obtain ⟨hlow', hhigh'⟩ := hodd (by omega)
  exact ⟨hlow', by omega⟩

/-- A fraction between the middles is rounded to the rank between them. -/
theorem nearestRank_of_near (hd : 0 < d) (h : Near k n d) : nearestRank n d = k := by
  obtain ⟨s, j, rfl, hj', hj⟩ := exists_steps k
  obtain ⟨hlow, hhigh, hodd⟩ := h.in_steps hj hj'
  have hD : 0 < d * 2 ^ s := Nat.mul_pos hd (Nat.two_pow_pos s)
  have hupper : n / d < 2 ^ (53 + s) := by
    have hmul : (j + 1) * (d * 2 ^ s) ≤ 2 ^ 53 * (d * 2 ^ s) := Nat.mul_le_mul_right _ hj'
    rw [Nat.add_mul, Nat.one_mul] at hmul
    rw [Nat.div_lt_iff_lt_mul hd, Nat.pow_add, Nat.mul_assoc, Nat.mul_comm (2 ^ s)]
    omega
  by_cases hregular : s = 0 ∨ 2 ^ 52 < j
  · -- both middles are half a step away
    have hprev : j * (d * 2 ^ s) ≤ unitsOfRank (s * 2 ^ 52 + j - 1) * d + d * 2 ^ s := by
      have hmul := Nat.mul_le_mul_right d (unitsOfRank_pred hregular (Nat.le_of_lt hj'))
      rwa [Nat.add_mul, Nat.mul_assoc, Nat.mul_comm (2 ^ s)] at hmul
    have hdoublings : doublings (n / d) = s := by
      rcases hregular with rfl | hj
      · exact doublings_of_lt hupper
      · refine doublings_eq ?_ hupper
        have hmul : (2 ^ 52 + 1) * (d * 2 ^ s) ≤ j * (d * 2 ^ s) := Nat.mul_le_mul_right _ hj
        rw [Nat.le_div_iff_mul_le hd, Nat.pow_add, Nat.mul_assoc, Nat.mul_comm (2 ^ s)]
        omega
    exact nearestRank_eq hdoublings (roundEven_eq (by omega) hhigh (by omega) hD)
  · obtain rfl : j = 2 ^ 52 := by omega
    obtain ⟨s, rfl⟩ : ∃ s', s = s' + 1 := ⟨s - 1, by omega⟩
    by_cases hbelow : n / d < 2 ^ (53 + s)
    · exact nearestRank_of_near_doubled hd h hbelow
    · have hle : 2 ^ (52 + (s + 1)) ≤ n / d := by
        have hexp : 52 + (s + 1) = 53 + s := by omega
        rw [hexp]
        exact Nat.not_lt.1 hbelow
      have hmul := (Nat.le_div_iff_mul_le hd).1 hle
      rw [Nat.pow_add, Nat.mul_assoc, Nat.mul_comm (2 ^ (s + 1))] at hmul
      exact nearestRank_eq (doublings_eq hle hupper) (roundEven_eq (by omega) hhigh (by omega) hD)

end LanguageUsage
