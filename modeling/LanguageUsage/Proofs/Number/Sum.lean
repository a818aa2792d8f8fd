import LanguageUsage.Proofs.Number.Rounded
import LanguageUsage.Store.StoredNumber

/-!
# Sums beyond the range of 64 bits

A column of counts keeps a sum of whole numbers that leaves the range of 64 bits as a double. The double is `2 ^ 63`
or more, whatever was rounded on the way, so it never comes back to the range. And where doubles are that far apart,
adding a small number to one is in vain.

* `Binary64.Above`: a double that is no less than a power of two;
* `Binary64.Above.add`, `Binary64.Above.add_lost`: sums with it;
* `Binary64.asDouble_whole`: a whole number as a double;
* `Binary64.Beyond`, `Number.addStored_beyond`, `Number.addStored_real`, `Number.addStored_lost`: stored sums.
-/

namespace LanguageUsage

namespace Magnitude

variable {q n s t : Nat}

/-- No rounding is done but that of the number, unless it goes beyond the largest magnitude. -/
theorem rank_ofRatio (h : nearestRank q 1 ≤ infinityRank) : (ofRatio q 1).rank = nearestRank q 1 := Nat.min_eq_left h

theorem units_ofRatio (h : nearestRank q 1 ≤ infinityRank) : (ofRatio q 1).units = rounded q := by
  rw [units, rank_ofRatio h, unitsOfRank_nearestRank]

/-- What is a magnitude is not rounded. -/
theorem ofRatio_of_nearestRank {m : Magnitude} (h : nearestRank q 1 = m.rank) : ofRatio q 1 = m := by
  obtain ⟨rank, hle⟩ := m
  have hrank : nearestRank q 1 = rank := h
  simp only [ofRatio, hrank, Nat.min_eq_left hle]

/-- A whole number of 64 bits, in some unit, is finite. -/
theorem nearestRank_mul_pow_lt (hn : n < 2 ^ 63) (ht : t ≤ 2000) : nearestRank (n * 2 ^ t) 1 < infinityRank := by
  have hlt : n * 2 ^ t < 2 ^ 53 * 2 ^ (10 + t) := by
    rw [Nat.pow_add, ← Nat.mul_assoc]
    exact Nat.mul_lt_mul_of_pos_right hn (Nat.two_pow_pos t)
  have hrank := nearestRank_le hlt
  rw [infinityRank]
  omega

end Magnitude

namespace Binary64

variable {m n : Magnitude} {x : Binary64} {q s t : Nat}

/-! ### Large doubles -/

/-- The double is `2 ^ (52 + s)` units or more. -/
def Above (s : Nat) (x : Binary64) : Prop := ∃ m : Magnitude, x = .signed false m ∧ 2 ^ 52 * 2 ^ s ≤ m.units

theorem above_ofUnits (hs : s < 2046) (h : 2 ^ 52 * 2 ^ s ≤ rounded q) : Above s (ofUnits false q 1) := by
  refine ⟨.ofRatio q 1, rfl, le_unitsOfRank_iff.2 (Nat.le_min.2 ⟨?_, ?_⟩)⟩
  · rwa [← le_unitsOfRank_iff, unitsOfRank_nearestRank]
  · rw [infinityRank]
    omega

/-- The sum of finite doubles without a sign. -/
theorem add_of_finite (hm : m.isInfinite = false) (hn : n.isInfinite = false) (hpos : 0 < m.units + n.units) :
    add (.signed false m) (.signed false n) = ofUnits false (m.units + n.units) 1 := by
  have hsum : signedUnits false m + signedUnits false n = ((m.units + n.units : Nat) : Int) := rfl
  have hne : ((m.units + n.units : Nat) : Int) ≠ 0 := by omega
  have hsign : decide (((m.units + n.units : Nat) : Int) < 0) = false := by
    rw [decide_eq_false_iff_not]
    omega
  simp only [add, hm, hn, hsum, if_neg hne, hsign, Int.natAbs_natCast]
  rfl

theorem add_of_infinite (hm : m.isInfinite = true) (hn : n.isInfinite = false) :
    add (.signed false m) (.signed false n) = .signed false m := by
  simp [add, hm, hn]

theorem Above.units_pos {u : Nat} (h : 2 ^ 52 * 2 ^ s ≤ m.units) : 0 < m.units + u :=
  Nat.add_pos_left (Nat.lt_of_lt_of_le (Nat.mul_pos (Nat.two_pow_pos 52) (Nat.two_pow_pos s)) h) u

theorem Above.add (hs : s < 2046) (hx : Above s x) (hn : n.isInfinite = false) : Above s (x.add (.signed false n)) := by
  obtain ⟨m, rfl, hm⟩ := hx
  cases hinfinite : m.isInfinite with
  | true => exact ⟨m, add_of_infinite hinfinite hn, hm⟩
  | false =>
    rw [add_of_finite hinfinite hn (Above.units_pos hm)]
    exact above_ofUnits hs (le_rounded (by decide) (Nat.le_trans hm (Nat.le_add_right _ _)))

/-- Less than half the distance of neighbours is lost. -/
theorem Above.add_lost (hx : Above s x) (hn : n.isInfinite = false) (hhalf : 2 * n.units < 2 ^ s) :
    x.add (.signed false n) = x := by
  obtain ⟨m, rfl, hm⟩ := hx
  cases hinfinite : m.isInfinite with
  | true => exact add_of_infinite hinfinite hn
  | false =>
    have hnearest := nearestRank_unitsOfRank_add (le_unitsOfRank_iff.1 hm) hhalf
    rw [add_of_finite hinfinite hn (Above.units_pos hm), ofUnits]
    exact congrArg (signed false) (Magnitude.ofRatio_of_nearestRank hnearest)

/-- The whole number that is equal to a double is no less than the double is. -/
theorem le_of_toInt? {z : Int} (hm : (2 : Int) ^ 63 * 2 ^ 1074 ≤ (m.units : Int))
    (h : toInt? (.signed false m) = some z) : 2 ^ 63 ≤ z := by
  have hpos : (0 : Int) < 2 ^ 1074 := Int.pow_pos (by decide)
  rw [toInt?, place?] at h
  generalize (2 : Int) ^ 1074 = unit at hm hpos h
  cases hinfinite : m.isInfinite with
  | true => simp [hinfinite] at h
  | false =>
    simp only [hinfinite, Bool.false_eq_true, if_false] at h
    split at h
    · obtain rfl := Option.some.inj h
      exact (Int.le_ediv_iff_mul_le hpos).2 hm
    · cases h

/-! ### Whole numbers as doubles -/

/-- A whole number of 64 bits as a double has its value, rounded. -/
theorem asDouble_whole {n : Nat} (h : n < 2 ^ 63) : ∃ m : Magnitude, (Number.whole n).asDouble = .signed false m ∧
    m.isInfinite = false ∧ m.units = rounded n * 2 ^ 1074 := by
  have hrank : nearestRank (n * 2 ^ 1074) 1 < infinityRank := Magnitude.nearestRank_mul_pow_lt (t := 1074) h (by decide)
  have hfinite : (Magnitude.ofRatio (n * 2 ^ 1074) 1).isInfinite = false := by
    rw [Magnitude.isInfinite, Magnitude.rank_ofRatio (Nat.le_of_lt hrank), beq_eq_false_iff_ne]
    exact Nat.ne_of_lt hrank
  refine ⟨.ofRatio (n * 2 ^ 1074) 1, ?_, hfinite, ?_⟩
  · have hsign : decide ((n : Int) < 0) = false := by
      rw [decide_eq_false_iff_not]
      omega
    rw [Number.asDouble, ofInt?, Int.natAbs_natCast, hsign]
    generalize Magnitude.ofRatio (n * 2 ^ 1074) 1 = m at hfinite
    simp [hfinite]
  · rw [Magnitude.units_ofRatio (Nat.le_of_lt hrank)]
    exact rounded_mul_pow n 1074

/-- The double is `2 ^ 63` or more. -/
def Beyond (x : Binary64) : Prop := Above (11 + 1074) x

-- the exponents stay as they are: the powers are too large to be computed all the time
theorem two_pow_63_mul (t : Nat) : 2 ^ 52 * 2 ^ (11 + t) = 2 ^ 63 * 2 ^ t := by
  rw [Nat.pow_add, ← Nat.mul_assoc]

theorem two_pow_63_le_units (h : 2 ^ 52 * 2 ^ (11 + 1074) ≤ m.units) : (2 : Int) ^ 63 * 2 ^ 1074 ≤ (m.units : Int) := by
  have hcast : ∀ {u t : Nat}, 2 ^ 63 * 2 ^ t ≤ u → (2 : Int) ^ 63 * 2 ^ t ≤ (u : Int) := fun h => by exact_mod_cast h
  rw [two_pow_63_mul 1074] at h
  exact hcast h

theorem Beyond.add (hx : Beyond x) {n : Nat} (hn : n < 2 ^ 63) : Beyond (x.add (Number.whole n).asDouble) := by
  obtain ⟨m, hm, hfinite, -⟩ := asDouble_whole hn
  rw [hm]
  exact Above.add (by decide) hx hfinite

theorem Beyond.add_lost (hx : Beyond x) {n : Nat} (hn : n < 1024) : x.add (Number.whole n).asDouble = x := by
  obtain ⟨m, hm, hfinite, hunits⟩ := asDouble_whole (n := n) (by omega)
  have hhalf : ∀ t, 2 * (n * 2 ^ t) < 2 ^ (11 + t) := fun t => by
    rw [Nat.pow_add, ← Nat.mul_assoc]
    exact Nat.mul_lt_mul_of_pos_right (by omega) (Nat.two_pow_pos t)
  rw [hm]
  refine Above.add_lost hx hfinite ?_
  rw [hunits, rounded_of_lt (by omega)]
  exact hhalf 1074

/-- A double beyond the range is no whole number in it. -/
theorem Beyond.narrowed (hx : Beyond x) : Number.narrowed (.real x) = .real x := by
  obtain ⟨m, rfl, hm⟩ := hx
  rw [Number.narrowed]
  cases h : toInt? (.signed false m) with
  | none => rfl
  | some z =>
    have hz := le_of_toInt? (two_pow_63_le_units hm) h
    exact if_neg fun hrange => by omega

/-- It is no less by comparison, either. -/
theorem Beyond.le (hx : Beyond x) : Number.le (.whole (2 ^ 63)) (.real x) = true := by
  obtain ⟨m, rfl, hm⟩ := hx
  have hle := two_pow_63_le_units hm
  rw [Number.le, Number.compareBy, Number.place?, Number.place?, Place.ofInt, place?]
  generalize (2 : Int) ^ 1074 = unit at hle
  cases m.isInfinite with
  | true => rfl
  | false => exact decide_eq_true hle

end Binary64

/-! ### Stored sums -/

namespace Number

variable {m n : Nat} {x : Binary64}

/-- **A sum that leaves the range** is a double beyond it. -/
theorem addStored_beyond (hm : m < 2 ^ 63) (hn : n < 2 ^ 63) (h : 2 ^ 63 ≤ m + n) :
    ∃ x, x.Beyond ∧ addStored (.whole m) (.whole n) = .real x := by
  obtain ⟨μ, hμ, hfinite, hunits⟩ := Binary64.asDouble_whole hm
  obtain ⟨ν, hν, hfinite', hunits'⟩ := Binary64.asDouble_whole hn
  have hreached : 2 ^ 52 * 2 ^ (11 + 1074) ≤ rounded (μ.units + ν.units) := by
    have hround : ∀ t, 2 ^ 63 * 2 ^ t ≤ rounded (rounded m * 2 ^ t + rounded n * 2 ^ t) := fun t => by
      rw [← Nat.add_mul, rounded_mul_pow]
      exact Nat.mul_le_mul_right _ (two_pow_le_rounded_add hm hn h)
    rw [Binary64.two_pow_63_mul 1074, hunits, hunits']
    exact hround 1074
  have hpos : 0 < μ.units + ν.units := by
    have hround : ∀ t, 0 < rounded m * 2 ^ t + rounded n * 2 ^ t := fun t => by
      have hsum := two_pow_le_rounded_add hm hn h
      rw [← Nat.add_mul]
      refine Nat.mul_pos (Nat.pos_of_ne_zero fun hzero => ?_) (Nat.two_pow_pos t)
      rw [hzero, rounded_of_lt (by decide)] at hsum
      omega
    rw [hunits, hunits']
    exact hround 1074
  have hbeyond : Binary64.Beyond _ := Binary64.above_ofUnits (by decide) hreached
  refine ⟨_, hbeyond, ?_⟩
  have hrange : isStorable (m + n) = false := by
    rw [isStorable, decide_eq_false_iff_not]
    omega
  rw [addStored, hrange, if_neg Bool.false_ne_true, hμ, hν, Binary64.add_of_finite hfinite hfinite' hpos]
  exact hbeyond.narrowed

/-- A sum stays beyond the range. -/
theorem addStored_real (hx : x.Beyond) (hn : n < 2 ^ 63) :
    ∃ y, y.Beyond ∧ addStored (.real x) (.whole n) = .real y :=
  ⟨_, hx.add hn, (hx.add hn).narrowed⟩

/-- **What is lost beyond the range**: less than half the distance of neighbouring doubles. -/
theorem addStored_lost (hx : x.Beyond) (hn : n < 1024) : addStored (.real x) (.whole n) = .real x := by
  have hsum : addStored (.real x) (.whole n) = narrowed (.real (x.add (Number.whole n).asDouble)) := rfl
  rw [hsum, hx.add_lost hn, hx.narrowed]

end Number

end LanguageUsage
