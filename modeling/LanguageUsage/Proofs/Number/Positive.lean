import LanguageUsage.Number.Basic
import LanguageUsage.Proofs.Number.Sum

/-!
# Sums of numbers that are one or more

Adding a number that is one or more to one that is not negative gives a number that is one or more, whatever is rounded
on the way, and be it infinite. Not-a-number is the exception: it is not below one, and not one or more either.

* `Number.IsPositive`: one or more, by comparison;
* `Number.isPositive_iff`: all that is not below one, but for not-a-number;
* `Binary64.above_add`: a sum of doubles is no less than a power of two that their exact sum reaches;
* `Number.IsPositive.add?`: a sum that is found is one or more;
* `Number.add?_nan`: what not-a-number is added to becomes not-a-number.
-/

namespace LanguageUsage

namespace Binary64

variable {m n : Magnitude} {s : Nat}

/-- Infinity is above every power of two. -/
theorem above_of_isInfinite (hs : s < 2046) (hm : m.isInfinite = true) : Above s (.signed false m) := by
  have hrank : m.rank = infinityRank := by simpa [Magnitude.isInfinite] using hm
  refine ⟨m, rfl, le_unitsOfRank_iff.2 ?_⟩
  rw [hrank, infinityRank]
  omega

/-- A rounded sum is no less than a power of two that the exact sum reaches. -/
theorem above_add (hs : s < 2046) (h : 2 ^ 52 * 2 ^ s ≤ m.units + n.units) :
    Above s (add (.signed false m) (.signed false n)) := by
  cases hm : m.isInfinite with
  | true =>
    have hsum : add (.signed false m) (.signed false n) = .signed false m := by simp [add, hm]
    rw [hsum]
    exact above_of_isInfinite hs hm
  | false =>
    cases hn : n.isInfinite with
    | true =>
      have hsum : add (.signed false m) (.signed false n) = .signed false n := by simp [add, hm, hn]
      rw [hsum]
      exact above_of_isInfinite hs hn
    | false =>
      have hpos : 0 < 2 ^ 52 * 2 ^ s := Nat.mul_pos (Nat.two_pow_pos 52) (Nat.two_pow_pos s)
      rw [add_of_finite hm hn (Nat.lt_of_lt_of_le hpos h)]
      exact above_ofUnits hs (le_rounded (by decide) h)

-- the powers stay as they are: they are too large to be computed all the time
theorem above_signed_iff {t : Nat} (h : 52 + s = t) : Above s (.signed false m) ↔ 2 ^ t ≤ m.units := by
  rw [← h, Nat.pow_add]
  constructor
  · rintro ⟨m', hm, hle⟩
    cases hm
    exact hle
  · intro hle
    exact ⟨m, rfl, hle⟩

theorem not_above_of_negative (s : Nat) (m : Magnitude) : ¬ Above s (.signed true m) := by
  rintro ⟨m', hm, -⟩
  cases hm

end Binary64

namespace Number

variable {a b c : Number} {x : Binary64} {n : Int}

/-- The number is one or more. -/
def IsPositive (a : Number) : Prop := le (.whole 1) a = true

theorem isPositive_whole : IsPositive (.whole n) ↔ 1 ≤ n := by
  rw [IsPositive, le_whole, decide_eq_true_iff]

theorem not_isPositive_nan : ¬ IsPositive (.real .nan) := Bool.false_ne_true

/-- What is compared with a number is not less than it, or no more. -/
theorem le_of_lt_eq_false (ha : a.place?.isSome = true) (hb : b.place?.isSome = true) (h : a.lt b = false) :
    b.le a = true := by
  obtain ⟨p, hp⟩ := Option.isSome_iff_exists.1 ha
  obtain ⟨q, hq⟩ := Option.isSome_iff_exists.1 hb
  simp only [lt, le, compareBy, hp, hq, Place.lt, Bool.not_eq_false'] at h ⊢
  exact h

theorem isPositive_iff : a.IsPositive ↔ a.lt (.whole 1) = false ∧ a ≠ .real .nan := by
  constructor
  · intro ha
    refine ⟨?_, ?_⟩
    · rw [IsPositive, le, compareBy] at ha
      rw [lt, compareBy]
      cases hp : a.place? with
      | none => rfl
      | some p => simpa [hp, Place.lt] using ha
    · rintro rfl
      exact not_isPositive_nan ha
  · rintro ⟨hlt, hnan⟩
    refine le_of_lt_eq_false ?_ rfl hlt
    rcases a with n | (- | ⟨(_ | _), m⟩)
    · rfl
    · exact absurd rfl hnan
    · rfl
    · rfl

/-- A double that is one or more has no sign, and is no less than `2 ^ 1074` units. -/
theorem isPositive_real : IsPositive (.real x) ↔ x.Above 1022 := by
  have hunits : ∀ t u : Nat, Place.le (.units (1 * 2 ^ t)) (.units u) = true ↔ 2 ^ t ≤ u := by
    intro t u
    rw [Place.le, decide_eq_true_iff, Int.one_mul]
    exact_mod_cast Iff.rfl
  have hbelow : ∀ t u : Nat, Place.le (.units (1 * 2 ^ t)) (.units (-(u : Int))) = false := by
    intro t u
    have hpos : (0 : Int) < 2 ^ t := Int.pow_pos (by decide)
    rw [Place.le, decide_eq_false_iff_not]
    omega
  rw [IsPositive, le, compareBy, place?_whole, Place.ofInt, place?]
  rcases x with - | ⟨negative, m⟩
  · refine ⟨fun h => absurd h Bool.false_ne_true, ?_⟩
    rintro ⟨m, hm, -⟩
    cases hm
  · cases negative with
    | false =>
      rw [Binary64.above_signed_iff (t := 1074) rfl, Binary64.place?]
      cases hm : m.isInfinite with
      | false => exact hunits 1074 m.units
      | true =>
        have habove : Binary64.Above 1022 (.signed false m) := Binary64.above_of_isInfinite (by decide) hm
        exact ⟨fun _ => (Binary64.above_signed_iff (t := 1074) rfl).1 habove, fun _ => rfl⟩
    | true =>
      refine ⟨fun h => ?_, fun h => absurd h (Binary64.not_above_of_negative _ _)⟩
      rw [Binary64.place?] at h
      cases hm : m.isInfinite with
      | false =>
        simp only [hm, Bool.false_eq_true, if_false] at h
        rw [hbelow] at h
        cases h
      | true =>
        rw [hm] at h
        exact absurd h Bool.false_ne_true

/-! ### Sums -/

/-- A whole number that is not negative has no sign as a double, either. -/
theorem exists_of_toBinary64? (hn : 0 ≤ n) (hx : toBinary64? (.whole n) = some x) :
    ∃ m, x = .signed false m ∧ (1 ≤ n → x.Above 1022) := by
  have hsign : decide (n < 0) = false := decide_eq_false (by omega)
  rw [toBinary64?, Binary64.ofInt?, hsign] at hx
  split at hx
  · cases hx
  · obtain rfl := Option.some.inj hx
    refine ⟨_, rfl, fun hone => ?_⟩
    have hunit : ∀ t s : Nat, 52 + s = t → 2 ^ 52 * 2 ^ s ≤ rounded (n.natAbs * 2 ^ t) := by
      intro t s h
      have hle := le_rounded (a := 1) (t := t) (q := n.natAbs * 2 ^ t) (by decide) (Nat.mul_le_mul_right _ (by omega))
      rw [Nat.one_mul] at hle
      rwa [← Nat.pow_add, h]
    exact Binary64.above_ofUnits (by decide) (hunit 1074 1022 rfl)

/-- A number that is not negative, as far as it is one at all. -/
def IsNonneg : Number → Prop
  | .whole n => 0 ≤ n
  | .real x => ∃ m, x = .signed false m

theorem IsPositive.isNonneg (ha : a.IsPositive) : a.IsNonneg := by
  cases a with
  | whole n =>
    rw [isPositive_whole] at ha
    exact Int.le_trans (by decide) ha
  | real x =>
    obtain ⟨m, hm, -⟩ := isPositive_real.1 ha
    exact ⟨m, hm⟩

/-- As a double, a number that is one or more is so again. -/
theorem toBinary64?_cases (ha : a.IsNonneg) (hx : a.toBinary64? = some x) :
    ∃ m, x = .signed false m ∧ (a.IsPositive → x.Above 1022) := by
  cases a with
  | whole n =>
    obtain ⟨m, hm, habove⟩ := exists_of_toBinary64? ha hx
    exact ⟨m, hm, fun hpos => habove (isPositive_whole.1 hpos)⟩
  | real y =>
    obtain rfl : y = x := Option.some.inj hx
    obtain ⟨m, hm⟩ := ha
    exact ⟨m, hm, isPositive_real.1⟩

/-- **A sum of a number that is one or more.** -/
theorem IsPositive.add? (ha : a.IsNonneg) (hb : b.IsPositive) (h : a.add? b = some c) : c.IsPositive := by
  -- in doubles, unless both numbers are whole
  have hreal : (do return Number.real ((← a.toBinary64?).add (← b.toBinary64?))) = some c → c.IsPositive := by
    intro h
    obtain ⟨x, hx, h⟩ := Option.bind_eq_some_iff.1 h
    obtain ⟨y, hy, h⟩ := Option.bind_eq_some_iff.1 h
    obtain ⟨m, rfl, -⟩ := toBinary64?_cases ha hx
    obtain ⟨n, rfl, habove⟩ := toBinary64?_cases hb.isNonneg hy
    obtain ⟨n', hn', hle⟩ := habove hb
    cases hn'
    rw [← Option.some.inj h, isPositive_real]
    exact Binary64.above_add (by decide) (Nat.le_trans hle (Nat.le_add_left _ _))
  cases a with
  | whole m =>
    cases b with
    | whole n =>
      rw [add?_whole] at h
      rw [← Option.some.inj h, isPositive_whole]
      rw [isPositive_whole] at hb
      have hm : 0 ≤ m := ha
      omega
    | real y => exact hreal h
  | real x => exact hreal h

/-- What not-a-number is added to becomes not-a-number. -/
theorem add?_nan (h : a.add? (.real .nan) = some c) : c = .real .nan := by
  have hreal : (do return Number.real ((← a.toBinary64?).add (← toBinary64? (.real .nan)))) = some c := by
    cases a <;> exact h
  obtain ⟨x, -, hsum⟩ := Option.bind_eq_some_iff.1 hreal
  rw [← Option.some.inj hsum]
  cases x <;> rfl

end Number

end LanguageUsage
