import LanguageUsage.Number.Shortest
import LanguageUsage.Proofs.Number.Nearest

/-!
# Decimals that are read back

The double that is read from a decimal does not depend on how many zeros the decimal ends with, and it is the one for
which the decimal was chosen.

* `Binary64.pow_le_of_decimalLength`, `Binary64.lt_pow_decimalLength`: the size of a number of so many digits;
* `Binary64.ofDecimal_mul_pow`: zeros at the end;
* `Magnitude.ofDecimal_of_readsBack`: a decimal that lies between the middles is read back.
-/

namespace LanguageUsage

namespace Binary64

variable {c k : Nat} {e : Int} {negative : Bool}

/-! ### Digits -/

theorem decimalLength_pos (c : Nat) : 0 < decimalLength c := Nat.length_toDigits_pos

theorem decimalLength_le_iff (hk : 0 < k) : decimalLength c ≤ k ↔ c < 10 ^ k :=
  Nat.length_toDigits_le_iff (by decide) hk

theorem lt_pow_decimalLength (c : Nat) : c < 10 ^ decimalLength c :=
  (decimalLength_le_iff (decimalLength_pos c)).1 (Nat.le_refl _)

theorem pow_le_of_decimalLength (hc : 0 < c) : 10 ^ (decimalLength c - 1) ≤ c := by
  by_cases hone : decimalLength c = 1
  · rw [hone]
    exact hc
  · have hpos := decimalLength_pos c
    refine Nat.not_lt.1 fun hlt => ?_
    have hle := (decimalLength_le_iff (by omega)).2 hlt
    omega

theorem decimalLength_mul_ten (hc : 0 < c) : decimalLength (c * 10) = decimalLength c + 1 := by
  have hdigits := Nat.toDigits_append_toDigits (b := 10) (d := 0) (by decide) hc (by decide)
  rw [Nat.add_zero, Nat.mul_comm] at hdigits
  rw [decimalLength, ← hdigits, List.length_append, decimalLength]
  rfl

/-! ### Reading -/

/-- The double nearest to a decimal, by a fraction. -/
theorem ofDecimal_eq (negative : Bool) (c : Nat) (e : Int) : ofDecimal negative c e =
    if c = 0 ∨ e + decimalLength c < -330 then .signed negative .zero
    else if 310 < e + decimalLength c then .infinity negative
    else ofUnits negative (c * 10 ^ e.toNat * Magnitude.one) (10 ^ (-e).toNat) := by
  cases e with
  | ofNat e =>
    simp only [ofDecimal, Magnitude.one, Int.ofNat_eq_natCast, Int.toNat_natCast, Int.toNat_neg_natCast, Nat.pow_zero]
  | negSucc e =>
    have hpos : (Int.negSucc e).toNat = 0 := rfl
    simp only [ofDecimal, Magnitude.one, hpos, Nat.pow_zero, Nat.mul_one, Int.neg_negSucc, Int.toNat_natCast]

theorem ofUnits_congr {n n' d d' : Nat} (hd : 0 < d) (hd' : 0 < d') (h : n * d' = n' * d) :
    ofUnits negative n d = ofUnits negative n' d' := by
  rw [ofUnits, ofUnits, Magnitude.ofRatio, Magnitude.ofRatio]
  simp only [nearestRank_congr hd hd' h]

/-- A zero at the end does not matter. -/
theorem ofDecimal_mul_ten (hc : 0 < c) : ofDecimal negative (c * 10) (e - 1) = ofDecimal negative c e := by
  have htop : e - 1 + decimalLength (c * 10) = e + decimalLength c := by
    rw [decimalLength_mul_ten hc]
    push_cast
    omega
  have hzero : c * 10 = 0 ↔ c = 0 := by omega
  have hunits : ofUnits negative (c * 10 * 10 ^ (e - 1).toNat * Magnitude.one) (10 ^ (-(e - 1)).toNat) =
      ofUnits negative (c * 10 ^ e.toNat * Magnitude.one) (10 ^ (-e).toNat) := by
    refine ofUnits_congr (Nat.pow_pos (by decide)) (Nat.pow_pos (by decide)) ?_
    have hexp : 1 + (e - 1).toNat + (-e).toNat = e.toNat + (-(e - 1)).toNat := by omega
    generalize Magnitude.one = u
    calc c * 10 * 10 ^ (e - 1).toNat * u * 10 ^ (-e).toNat
        = c * (10 ^ 1 * 10 ^ (e - 1).toNat * 10 ^ (-e).toNat) * u := by
          rw [Nat.pow_one]
          ac_rfl
      _ = c * (10 ^ e.toNat * 10 ^ (-(e - 1)).toNat) * u := by rw [← Nat.pow_add, ← Nat.pow_add, hexp, Nat.pow_add]
      _ = c * 10 ^ e.toNat * u * 10 ^ (-(e - 1)).toNat := by ac_rfl
  rw [ofDecimal_eq, ofDecimal_eq, htop, hunits]
  simp only [hzero]

/-- Zeros at the end do not matter. -/
theorem ofDecimal_mul_pow (hc : 0 < c) (k : Nat) :
    ofDecimal negative (c * 10 ^ k) (e - k) = ofDecimal negative c e := by
  induction k with
  | zero => simp
  | succ k ih =>
    have hpos : 0 < c * 10 ^ k := Nat.mul_pos hc (Nat.pow_pos (by decide))
    have hexp : e - (k + 1 : Nat) = e - k - 1 := by omega
    rw [Nat.pow_succ, ← Nat.mul_assoc, hexp, ofDecimal_mul_ten hpos, ih]

end Binary64

namespace Magnitude

variable {m : Magnitude} {d : Decimal} {negative : Bool}

/-- A decimal reads back if the fraction for which it stands lies between the middles. -/
theorem readsBack_iff : m.readsBack d = true ↔
    Near m.rank (d.coefficient * 10 ^ d.exponent.toNat * one) (10 ^ (-d.exponent).toNat) := by
  obtain ⟨c, e⟩ := d
  cases e with
  | ofNat e =>
    simp only [readsBack, Near, units, Int.ofNat_eq_natCast, Int.toNat_natCast, Int.toNat_neg_natCast, Nat.pow_zero]
    split <;> exact Bool.and_eq_true_iff.trans (and_congr decide_eq_true_iff decide_eq_true_iff)
  | negSucc e =>
    have hpos : (Int.negSucc e).toNat = 0 := rfl
    simp only [readsBack, Near, units, hpos, Nat.pow_zero, Nat.mul_one, Int.neg_negSucc, Int.toNat_natCast]
    split <;> exact Bool.and_eq_true_iff.trans (and_congr decide_eq_true_iff decide_eq_true_iff)

theorem one_pos : 0 < one := by decide +kernel

theorem one_le_unitsOfRank {k : Nat} (hk : 0 < k) : 1 ≤ unitsOfRank k := unitsOfRank_mono hk

theorem unitsOfRank_infinityRank : unitsOfRank infinityRank = 2 ^ 1024 * one :=
  (unitsOfRank_steps (s := 2046) (k := 2 ^ 52) (Nat.le_refl _) (by decide)).trans (by decide +kernel)

variable {c i j : Nat}

/-- A decimal that reads back as a magnitude above zero is above zero. -/
theorem coefficient_pos_of_near (hpos : 0 < m.rank) (h : Near m.rank (c * 10 ^ i * one) (10 ^ j)) : 0 < c := by
  have hunits : 0 < (unitsOfRank (m.rank - 1) + unitsOfRank m.rank) * 10 ^ j :=
    Nat.mul_pos (Nat.add_pos_right _ (one_le_unitsOfRank hpos)) (Nat.pow_pos (by decide))
  refine Nat.pos_of_ne_zero ?_
  rintro rfl
  have hlow := h.low
  rw [Nat.zero_mul, Nat.zero_mul] at hlow
  omega

/-- A decimal that reads back as a finite magnitude is below `10 ^ 309`. -/
theorem top_le_of_near (hc : 0 < c) (hfinite : m.rank < infinityRank) (h : Near m.rank (c * 10 ^ i * one) (10 ^ j)) :
    Binary64.decimalLength c + i ≤ 309 + j := by
  obtain ⟨v, hv, hlarge⟩ : ∃ v < 10 ^ 309, unitsOfRank infinityRank = v * one :=
    ⟨2 ^ 1024, by decide +kernel, unitsOfRank_infinityRank⟩
  have hone := one_pos
  generalize one = u at *
  have hbelow : unitsOfRank m.rank + unitsOfRank (m.rank + 1) ≤ 2 * (v * u) := by
    have hhere := unitsOfRank_mono (Nat.le_of_lt hfinite)
    have hnext : unitsOfRank (m.rank + 1) ≤ unitsOfRank infinityRank := unitsOfRank_mono hfinite
    rw [hlarge] at hhere hnext
    omega
  have hhigh : 2 * (c * 10 ^ i * u) ≤ 2 * (v * 10 ^ j * u) := by
    refine Nat.le_trans h.high (Nat.le_trans (Nat.mul_le_mul_right _ hbelow) (Nat.le_of_eq ?_))
    ac_rfl
  have hvalue : c * 10 ^ i ≤ v * 10 ^ j :=
    Nat.le_of_mul_le_mul_right (Nat.le_of_mul_le_mul_left hhigh (by decide)) hone
  have hpow : 10 ^ (Binary64.decimalLength c - 1 + i) < 10 ^ (309 + j) := by
    calc 10 ^ (Binary64.decimalLength c - 1 + i)
        ≤ c * 10 ^ i := by
          rw [Nat.pow_add]
          exact Nat.mul_le_mul_right _ (Binary64.pow_le_of_decimalLength hc)
      _ ≤ v * 10 ^ j := hvalue
      _ < 10 ^ 309 * 10 ^ j := Nat.mul_lt_mul_of_pos_right hv (Nat.pow_pos (by decide))
      _ = 10 ^ (309 + j) := (Nat.pow_add 10 309 j).symm
  have hexp := (Nat.pow_lt_pow_iff_right (by decide)).1 hpow
  omega

/-- A decimal that reads back as a magnitude above zero is above `10 ^ -324`. -/
theorem lt_top_of_near (hpos : 0 < m.rank) (h : Near m.rank (c * 10 ^ i * one) (10 ^ j)) :
    j < 324 + (Binary64.decimalLength c + i) := by
  have hunits := one_le_unitsOfRank hpos
  have hsmall : 2 * one ≤ 10 ^ 324 := by decide +kernel
  have hone := one_pos
  generalize one = u at *
  have hlow : 10 ^ j ≤ 2 * (c * 10 ^ i * u) :=
    Nat.le_trans (Nat.le_mul_of_pos_left _ (by omega)) h.low
  have hpow : 10 ^ j < 10 ^ (324 + (Binary64.decimalLength c + i)) := by
    calc 10 ^ j ≤ 2 * u * (c * 10 ^ i) := Nat.le_trans hlow (Nat.le_of_eq (by ac_rfl))
      _ < 2 * u * (10 ^ Binary64.decimalLength c * 10 ^ i) :=
        Nat.mul_lt_mul_of_pos_left
          (Nat.mul_lt_mul_of_pos_right (Binary64.lt_pow_decimalLength c) (Nat.pow_pos (by decide))) (by omega)
      _ ≤ 10 ^ 324 * (10 ^ Binary64.decimalLength c * 10 ^ i) := Nat.mul_le_mul_right _ hsmall
      _ = 10 ^ (324 + (Binary64.decimalLength c + i)) := by rw [Nat.pow_add, Nat.pow_add]
  exact (Nat.pow_lt_pow_iff_right (by decide)).1 hpow

/-- **A decimal that lies between the middles is read back**, as the magnitude between them. -/
theorem ofDecimal_of_readsBack (hpos : 0 < m.rank) (hfinite : m.rank < infinityRank) (h : m.readsBack d = true)
    (negative : Bool) :
    0 < d.coefficient ∧ Binary64.ofDecimal negative d.coefficient d.exponent = .signed negative m := by
  have hnear := readsBack_iff.1 h
  have hc := coefficient_pos_of_near hpos hnear
  have htop := top_le_of_near hc hfinite hnear
  have hbottom := lt_top_of_near hpos hnear
  have hrank := nearestRank_of_near (Nat.pow_pos (by decide)) hnear
  refine ⟨hc, ?_⟩
  rw [Binary64.ofDecimal_eq, if_neg (by omega), if_neg (by omega), Binary64.ofUnits, ofRatio]
  simp only [hrank, Nat.min_eq_left (Nat.le_of_lt hfinite)]

end Magnitude

end LanguageUsage
