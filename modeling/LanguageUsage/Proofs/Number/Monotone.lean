import LanguageUsage.Number.Basic
import LanguageUsage.Proofs.Number.Nearest

/-!
# Larger numbers are not rounded to less

Two fractions with the same denominator are rounded to doubles that are in the order of their numerators, or equal:
they may be rounded to the same double, to zero if they are small enough.

* `roundEven_mono`, `doublings_mono`, `nearestRank_mono`: a larger numerator has no lesser rank;
* `Number.le_trans`, `Number.le_signed`: the order of doubles without a sign is that of their ranks;
* `Number.le_zero_of_isZero`: the sign of a zero does not matter;
* `Number.le_ofQuotient`, `Number.zero_le_ofQuotient`: quotients of whole numbers that are not negative.
-/

namespace LanguageUsage

variable {n n' q q' : Nat}

/-! ### Ranks -/

theorem roundEven_mono (h : n ≤ n') (d : Nat) : roundEven n d ≤ roundEven n' d := by
  have hdiv : n / d ≤ n' / d := Nat.div_le_div_right h
  rcases Nat.lt_or_eq_of_le hdiv with hlt | heq
  · calc roundEven n d ≤ n / d + 1 := roundEven_le n d
      _ ≤ n' / d := hlt
      _ ≤ roundEven n' d := div_le_roundEven n' d
  · -- with the same quotient the remainders are in order
    have hsum := Nat.div_add_mod n d
    have hsum' := Nat.div_add_mod n' d
    rw [heq] at hsum
    have hmod : n % d ≤ n' % d := by omega
    simp only [roundEven, heq]
    split_ifs <;> omega

theorem doublings_mono (h : q ≤ q') : doublings q ≤ doublings q' := by
  by_cases hq : q' < 2 ^ 53
  · exact Nat.le_of_eq ((doublings_of_lt (Nat.lt_of_le_of_lt h hq)).trans (doublings_of_lt hq).symm)
  · exact doublings_le (Nat.lt_of_le_of_lt h (doublings_spec (Nat.not_lt.1 hq)).2)

/-- **A larger numerator has no lesser rank.** -/
theorem nearestRank_mono (h : n ≤ n') (d : Nat) : nearestRank n d ≤ nearestRank n' d := by
  have hdiv : n / d ≤ n' / d := Nat.div_le_div_right h
  simp only [nearestRank]
  rcases Nat.lt_or_eq_of_le (doublings_mono hdiv) with hlt | heq
  · -- the ranks at one distance end where those at the next one begin
    have hlarge : 2 ^ 53 ≤ n' / d := by
      by_contra hsmall
      rw [doublings_of_lt (Nat.not_le.1 hsmall)] at hlt
      omega
    have hdigits := digits_le n d
    have hdigits' := le_digits hlarge
    omega
  · rw [heq]
    exact Nat.add_le_add_left (roundEven_mono h _) _

/-! ### Doubles -/

namespace Number

variable {a b c : Number} {μ ν : Magnitude}

theorem le_trans (h : a.le b = true) (h' : b.le c = true) : a.le c = true := by
  simp only [le, compareBy] at *
  cases ha : a.place? <;> cases hb : b.place? <;> cases hc : c.place? <;> simp only [ha, hb, hc] at h h' ⊢
  all_goals first | exact Place.le_trans h h' | cases h | cases h'

/-- Doubles without a sign are in the order of their ranks. -/
theorem le_signed (h : μ.rank ≤ ν.rank) : le (.real (.signed false μ)) (.real (.signed false ν)) = true := by
  have hinfinite : μ.isInfinite = true → ν.isInfinite = true := by
    have hν := ν.rank_le
    simp only [Magnitude.isInfinite, beq_iff_eq]
    omega
  have hunits : μ.units ≤ ν.units := unitsOfRank_mono h
  simp only [le, compareBy, place?, Binary64.place?]
  cases hμ : μ.isInfinite <;> cases hν : ν.isInfinite
  · simpa [Place.le] using hunits
  · rfl
  · simp [hinfinite hμ] at hν
  · rfl

/-- Both zeros are no more than zero. -/
theorem le_zero_of_isZero (h : a.isZero = true) : a.le (.whole 0) = true := by
  rcases a with n | (- | ⟨negative, μ⟩)
  · simpa [isZero] using Int.le_of_eq (eq_of_beq h)
  · cases h
  · have hrank : μ.rank = 0 := eq_of_beq h
    have hfinite : μ.isInfinite = false := by
      rw [Magnitude.isInfinite, hrank]
      rfl
    have hunits : μ.units = 0 := by
      rw [Magnitude.units, hrank]
      rfl
    simp only [le, compareBy, place?, Place.ofInt, Int.zero_mul]
    cases negative <;> simp [Binary64.place?, hfinite, hunits, Place.le]

theorem ofQuotient_natCast (n d : Nat) :
    Binary64.ofQuotient n d = .signed false (.ofRatio (n * 2 ^ 1074) d) := by
  have hsign : ∀ k : Nat, decide ((k : Int) < 0) = false := fun k => decide_eq_false (by omega)
  rw [Binary64.ofQuotient, hsign, hsign, Int.natAbs_natCast, Int.natAbs_natCast]
  rfl

/-- **A larger whole number has no lesser quotient.** -/
theorem le_ofQuotient (h : n ≤ n') (d : Nat) :
    le (.real (.ofQuotient n d)) (.real (.ofQuotient n' d)) = true := by
  rw [ofQuotient_natCast, ofQuotient_natCast]
  have hrank := nearestRank_mono (Nat.mul_le_mul_right (2 ^ 1074) h) d
  refine le_signed ?_
  simp only [Magnitude.ofRatio]
  omega

theorem zero_le_signed (μ : Magnitude) : le (.whole 0) (.real (.signed false μ)) = true := by
  simp only [le, compareBy, place?, Binary64.place?, Place.ofInt, Int.zero_mul]
  cases μ.isInfinite <;> simp [Place.le]

theorem zero_le_ofQuotient (n d : Nat) : le (.whole 0) (.real (.ofQuotient n d)) = true := by
  rw [ofQuotient_natCast]
  exact zero_le_signed _

end Number

end LanguageUsage
