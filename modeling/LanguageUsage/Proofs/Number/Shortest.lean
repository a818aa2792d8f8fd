import LanguageUsage.Proofs.Number.Decimal

/-!
# The shortest decimals read back

The decimal that is chosen for a double is read as this double, whatever its size. Seventeen digits suffice: on their
grid the points are closer to each other than the middles to the two neighbours are.

* `Decimal.exists_dropZeros`: what it means that zeros are dropped;
* `Magnitude.exists_near`: a point of the grid lies between the middles;
* `Magnitude.ofDecimal_shortest`: the decimal that is chosen reads back.
-/

namespace LanguageUsage

/-- Only zeros are dropped. -/
theorem Decimal.exists_dropZeros (fuel : Nat) (d : Decimal) : ∃ k : Nat,
    d.coefficient = (d.dropZeros fuel).coefficient * 10 ^ k ∧ d.exponent = (d.dropZeros fuel).exponent - k := by
  induction fuel generalizing d with
  | zero => exact ⟨0, (Nat.mul_one _).symm, (Int.sub_zero _).symm⟩
  | succ fuel ih =>
    rw [dropZeros]
    split
    · next hzero =>
      obtain ⟨k, hcoefficient, hexponent⟩ := ih ⟨d.coefficient / 10, d.exponent + 1⟩
      refine ⟨k + 1, ?_, ?_⟩
      · rw [Nat.pow_succ, ← Nat.mul_assoc, ← hcoefficient]
        exact (Nat.div_mul_cancel (Nat.dvd_of_mod_eq_zero hzero)).symm
      · change d.exponent + 1 = _ at hexponent
        push_cast
        omega
    · exact ⟨0, (Nat.mul_one _).symm, (Int.sub_zero _).symm⟩

namespace Magnitude

variable {m : Magnitude} {d : Decimal} {negative : Bool} {a b i j k units : Nat} {e point : Int}

/-! ### Grids -/

/-- A step of the grid of seventeen digits is less than half of what lies between the two neighbours. -/
theorem gap_of_rank (hk : 0 < k) : 2 * unitsOfRank k + 10 ^ 16 * unitsOfRank (k - 1) < 10 ^ 16 * unitsOfRank (k + 1) := by
  obtain ⟨s, j, rfl, hj', hj⟩ := exists_steps k
  have hP := Nat.two_pow_pos s
  rw [Nat.add_assoc, unitsOfRank_add hj (Nat.le_of_lt hj'), unitsOfRank_add (j := j + 1) (by omega) hj', Nat.add_mul,
    Nat.one_mul]
  by_cases hregular : s = 0 ∨ 2 ^ 52 < j
  · obtain ⟨i, rfl⟩ : ∃ i, j = i + 1 := ⟨j - 1, by omega⟩
    have hrank : s * 2 ^ 52 + (i + 1) - 1 = s * 2 ^ 52 + i := by omega
    have hmul : i * 2 ^ s ≤ (2 ^ 53 - 2) * 2 ^ s := Nat.mul_le_mul_right _ (by omega)
    rw [hrank, unitsOfRank_add (by omega) (by omega), Nat.add_mul, Nat.one_mul]
    omega
  · obtain rfl : j = 2 ^ 52 := by omega
    obtain ⟨s, rfl⟩ : ∃ s', s = s' + 1 := ⟨s - 1, by omega⟩
    have hrank : (s + 1) * 2 ^ 52 + 2 ^ 52 - 1 = s * 2 ^ 52 + (2 ^ 53 - 1) := by omega
    rw [hrank, unitsOfRank_add (by omega) (by omega), Nat.pow_succ]
    omega

/-- Of the two points around a magnitude on a grid of seventeen digits one lies between the middles. The points of the
grid are `a / b` units apart. -/
theorem exists_near (hk : 0 < k) (ha : 0 < a) (hb : 0 < b) (hgrid : 10 ^ 16 * a ≤ unitsOfRank k * b) :
    Near k (unitsOfRank k * b / a * a) b ∨ Near k ((unitsOfRank k * b / a + 1) * a) b := by
  have hgap := Nat.mul_lt_mul_of_pos_right (gap_of_rank hk) hb
  have hprev : unitsOfRank (k - 1) * b < unitsOfRank k * b := by
    have hlt := unitsOfRank_lt_succ (k - 1)
    rw [Nat.sub_add_cancel hk] at hlt
    exact Nat.mul_lt_mul_of_pos_right hlt hb
  have hnext := Nat.mul_lt_mul_of_pos_right (unitsOfRank_lt_succ k) hb
  have hbelow := Nat.div_mul_le_self (unitsOfRank k * b) a
  have habove := Nat.lt_div_mul_add (a := unitsOfRank k * b) ha
  rw [Nat.add_mul, Nat.mul_assoc, Nat.mul_assoc, Nat.mul_assoc] at hgap
  by_cases heven : k % 2 = 0
  · rw [Near, Near, if_pos heven, if_pos heven, Nat.add_mul, Nat.add_mul, Nat.add_mul _ 1 a, Nat.one_mul]
    omega
  · rw [Near, Near, if_neg heven, if_neg heven, Nat.add_mul, Nat.add_mul, Nat.add_mul _ 1 a, Nat.one_mul]
    omega

/-- The quotient of a magnitude by a step of the grid. -/
theorem onGrid_eq (units : Nat) (e : Int) : onGrid units e = (units * 10 ^ (-e).toNat, 10 ^ e.toNat * one) := by
  cases e with
  | ofNat e =>
    simp only [onGrid, Int.ofNat_eq_natCast, Int.toNat_natCast, Int.toNat_neg_natCast, Nat.pow_zero, Nat.mul_one,
      Nat.mul_comm one]
  | negSucc e =>
    have hpos : (Int.negSucc e).toNat = 0 := rfl
    simp only [onGrid, hpos, Nat.pow_zero, Nat.one_mul, Int.neg_negSucc, Int.toNat_natCast]

theorem grid_of_le (h : 10 ^ i * one ≤ units * 10 ^ j) (he : e = (i : Int) - j - 16) :
    10 ^ 16 * (10 ^ e.toNat * one) ≤ units * 10 ^ (-e).toNat := by
  have hexp : 16 + e.toNat + j = (-e).toNat + i := by omega
  generalize one = u at *
  have hmul : 10 ^ 16 * (10 ^ e.toNat * u) * 10 ^ j ≤ units * 10 ^ (-e).toNat * 10 ^ j := by
    calc 10 ^ 16 * (10 ^ e.toNat * u) * 10 ^ j
        = 10 ^ 16 * 10 ^ e.toNat * 10 ^ j * u := by rw [← Nat.mul_assoc, Nat.mul_right_comm]
      _ = 10 ^ (-e).toNat * (10 ^ i * u) := by rw [← Nat.pow_add, ← Nat.pow_add, hexp, Nat.pow_add, Nat.mul_assoc]
      _ ≤ 10 ^ (-e).toNat * (units * 10 ^ j) := Nat.mul_le_mul_left _ h
      _ = units * 10 ^ (-e).toNat * 10 ^ j := by rw [Nat.mul_left_comm, Nat.mul_assoc]
  exact Nat.le_of_mul_le_mul_right hmul (Nat.pow_pos (by decide))

/-- The first digit stands in front of the point that is found, so a grid of seventeen digits is fine enough. -/
theorem grid_of_decimalPoint (hunits : 0 < units) (he : e = decimalPoint units - 17) :
    10 ^ 16 * (10 ^ e.toNat * one) ≤ units * 10 ^ (-e).toNat := by
  have hone := one_pos
  rw [decimalPoint] at he
  split at he
  · next hle =>
    have hq : 0 < units / one := Nat.div_pos hle hone
    have hlength := Binary64.decimalLength_pos (units / one)
    have hpow := Binary64.pow_le_of_decimalLength hq
    refine grid_of_le (i := Binary64.decimalLength (units / one) - 1) (j := 0) ?_ (by omega)
    rw [Nat.pow_zero, Nat.mul_one]
    exact (Nat.le_div_iff_mul_le hone).1 hpow
  · next hlt =>
    have hlength := Binary64.decimalLength_pos (one / units)
    dsimp only at he
    split at he
    · next hpower =>
      obtain ⟨hq, hmod⟩ := hpower
      have hone' : units * (one / units) = one := Nat.mul_div_cancel' (Nat.dvd_of_mod_eq_zero hmod)
      refine grid_of_le (i := 0) (j := Binary64.decimalLength (one / units) - 1) ?_ (by omega)
      rw [← hq, Nat.pow_zero, Nat.one_mul]
      exact Nat.le_of_eq hone'.symm
    · have hpow := Binary64.lt_pow_decimalLength (one / units)
      refine grid_of_le (i := 0) (j := Binary64.decimalLength (one / units)) ?_ (by omega)
      rw [Nat.pow_zero, Nat.one_mul, Nat.mul_comm]
      exact Nat.le_of_lt ((Nat.div_lt_iff_lt_mul hunits).1 hpow)

/-! ### Choice -/

/-- What is found on a grid reads back. -/
theorem readsBack_of_onDigits? {digits : Nat} (h : m.onDigits? point digits = some d) : m.readsBack d = true := by
  simp only [onDigits?] at h
  generalize point - (digits : Int) = e at h
  generalize onGrid m.units e = g at h
  split at h
  · next hbelow habove =>
    obtain rfl := Option.some.inj h
    have hle := div_le_roundEven g.1 g.2
    have hle' := roundEven_le g.1 g.2
    obtain hround | hround : roundEven g.1 g.2 = g.1 / g.2 ∨ roundEven g.1 g.2 = g.1 / g.2 + 1 := by omega
    · exact hround ▸ hbelow
    · exact hround ▸ habove
  · next hbelow _ => exact Option.some.inj h ▸ hbelow
  · next _ habove => exact Option.some.inj h ▸ habove
  · cases h

/-- One of the two points around a magnitude is found if it reads back. -/
theorem isSome_onDigits?_of_readsBack {digits n d : Nat} (hgrid : onGrid m.units (point - digits) = (n, d))
    (h : m.readsBack ⟨n / d, point - digits⟩ = true ∨ m.readsBack ⟨n / d + 1, point - digits⟩ = true) :
    (m.onDigits? point digits).isSome = true := by
  simp only [onDigits?, hgrid]
  split
  · rfl
  · rfl
  · rfl
  · next hbelow habove => exact absurd h (by rw [hbelow, habove]; simp)

/-- On the grid of seventeen digits there is something to be found. -/
theorem isSome_onDigits? (hpos : 0 < m.rank) : (m.onDigits? (decimalPoint m.units) 17).isSome = true := by
  have hunits : 0 < m.units := one_le_unitsOfRank hpos
  have hgrid := grid_of_decimalPoint hunits rfl
  have hnear := exists_near hpos (Nat.mul_pos (Nat.pow_pos (by decide)) one_pos) (Nat.pow_pos (by decide)) hgrid
  rw [← Nat.mul_assoc, ← Nat.mul_assoc] at hnear
  exact isSome_onDigits?_of_readsBack (onGrid_eq m.units _) (hnear.imp readsBack_iff.2 readsBack_iff.2)

/-- **The decimal that is chosen reads back.** -/
theorem ofDecimal_shortest (hpos : 0 < m.rank) (hfinite : m.rank < infinityRank) (negative : Bool) :
    0 < m.shortest.coefficient ∧
      Binary64.ofDecimal negative m.shortest.coefficient m.shortest.exponent = .signed negative m := by
  obtain ⟨d, hd⟩ : ∃ d, (List.range' 1 17).findSome? (m.onDigits? (decimalPoint m.units)) = some d := by
    rw [← Option.isSome_iff_exists, List.isSome_findSome?, List.any_eq_true]
    exact ⟨17, by decide, isSome_onDigits? hpos⟩
  obtain ⟨digits, -, hdigits⟩ := List.exists_of_findSome?_eq_some hd
  obtain ⟨hc, hread⟩ := ofDecimal_of_readsBack hpos hfinite (readsBack_of_onDigits? hdigits) negative
  obtain ⟨k, hcoefficient, hexponent⟩ := Decimal.exists_dropZeros 17 d
  have hshortest : m.shortest = d.dropZeros 17 := by rw [shortest, hd]; rfl
  have hpos' : 0 < (d.dropZeros 17).coefficient := by
    refine Nat.pos_of_ne_zero fun hzero => ?_
    rw [hzero, Nat.zero_mul] at hcoefficient
    omega
  rw [hshortest, ← hread, hcoefficient, hexponent]
  exact ⟨hpos', (Binary64.ofDecimal_mul_pow hpos' k).symm⟩

end Magnitude

end LanguageUsage
