import LanguageUsage.Conversation.Instant
import Mathlib.Data.Int.Init
import Mathlib.Tactic.Common
import Mathlib.Tactic.IntervalCases

/-!
# Dates and points in time

Days are counted through the calendar: the first day of a month or a year comes after the last day of the one before. So
a later date has a larger number, and on clocks that are set alike points in time are ordered like what calendar and
clock show, read from the year down.

* `add_size_le`, `block_lt_iff`: places in blocks that follow each other;
* `daysInMonth`, `daysInYear`, `IsDate`: the calendar;
* `daysBefore_dayAfter`: every day counts one;
* `daysBefore_lt_iff`, `daysBefore_eq_iff`: the order of dates;
* `Moment.Valid`, `Moment.fields`: what a calendar and a clock can show;
* `Moment.instant_lt_iff_fields`, `Moment.instant_eq_iff_fields`: the order of points in time on clocks that are set alike.
-/

namespace LanguageUsage

/-! ### Blocks -/

section blocks

variable {a a' b b' : Int}

/-- Where every block is followed by the next one, a later block starts when all of an earlier one is over. -/
theorem add_size_le (start size : Int → Int)
    (h : ∀ x, a ≤ x → x < a' → start (x + 1) = start x + size x ∧ 0 ≤ size x) (hlt : a < a') :
    start a + size a ≤ start a' := by
  have hall : ∀ c, a + 1 ≤ c → c ≤ a' → start a + size a ≤ start c := by
    intro c hc
    induction c, hc using Int.leInduction with
    | base =>
      intro _
      rw [(h a (Int.le_refl a) hlt).1]
    | succ c hc ih =>
      intro hca
      obtain ⟨hnext, hsize⟩ := h c (by omega) (by omega)
      have hle := ih (by omega)
      omega
  exact hall a' hlt (Int.le_refl a')

variable (start size : Int → Int) (h : a < a' → start a + size a ≤ start a')
  (h' : a' < a → start a' + size a' ≤ start a) (hb : 0 ≤ b ∧ b < size a) (hb' : 0 ≤ b' ∧ b' < size a')

include h h' hb hb'

/-- A place is before another one if its block is, or it is before it in the same block. -/
theorem block_lt_iff : start a + b < start a' + b' ↔ a < a' ∨ a = a' ∧ b < b' := by
  rcases Int.lt_trichotomy a a' with hlt | rfl | hgt
  · have hle := h hlt
    omega
  · omega
  · have hle := h' hgt
    omega

end blocks

/-! ### The calendar -/

/-- The length of a month. -/
def daysInMonth (year month : Int) : Int :=
  if month = 2 then if isLeapYear year then 29 else 28
  else if month = 4 ∨ month = 6 ∨ month = 9 ∨ month = 11 then 30 else 31

/-- The length of a year. -/
def daysInYear (year : Int) : Int := if isLeapYear year then 366 else 365

/-- A day that is in the calendar, in whatever year. -/
structure IsDate (year month day : Int) : Prop where
  inYear : 1 ≤ month ∧ month ≤ 12
  inMonth : 1 ≤ day ∧ day ≤ daysInMonth year month

/-- The date of the next day. -/
def dayAfter (year month day : Int) : Int × Int × Int :=
  if day < daysInMonth year month then (year, month, day + 1)
  else if month < 12 then (year, month + 1, 1)
  else (year + 1, 1, 1)

variable {y y' m m' d d' : Int}

theorem daysInMonth_pos (y m : Int) : 0 ≤ daysInMonth y m := by
  unfold daysInMonth
  split_ifs <;> decide

theorem daysInYear_pos (y : Int) : 0 ≤ daysInYear y := by
  unfold daysInYear
  split_ifs <;> decide

@[simp] theorem daysBeforeMonth_one (y : Int) : daysBeforeMonth y 1 = 0 := rfl

/-- A month follows the one before. -/
theorem daysBeforeMonth_succ (y : Int) (hm : 1 ≤ m) (hm' : m < 12) :
    daysBeforeMonth y (m + 1) = daysBeforeMonth y m + daysInMonth y m := by
  interval_cases m <;> cases hy : isLeapYear y <;> simp [daysBeforeMonth, daysInMonth, hy]

/-- December is the last month. -/
theorem daysBeforeMonth_december (y : Int) : daysBeforeMonth y 12 + daysInMonth y 12 = daysInYear y := by
  cases hy : isLeapYear y <;> simp [daysBeforeMonth, daysInMonth, daysInYear, hy]

theorem daysBeforeMonth_le (y : Int) (hm : 1 ≤ m) (hm' : m' ≤ 12) (hlt : m < m') :
    daysBeforeMonth y m + daysInMonth y m ≤ daysBeforeMonth y m' :=
  add_size_le _ _ (fun x hx hx' => ⟨daysBeforeMonth_succ y (by omega) (by omega), daysInMonth_pos y x⟩) hlt

/-- A date is found by its year and the place of the day in it. -/
theorem daysBefore_eq (y m d : Int) : daysBefore y m d = daysBefore y 1 1 + (daysBeforeMonth y m + (d - 1)) := by
  simp only [daysBefore, daysBeforeMonth_one]
  omega

/-- A year follows the one before. -/
theorem daysBefore_succ (y : Int) : daysBefore (y + 1) 1 1 = daysBefore y 1 1 + daysInYear y := by
  simp only [daysBefore, daysBeforeMonth_one, daysInYear, isLeapYear, Bool.and_eq_true, Bool.or_eq_true,
    beq_iff_eq, bne_iff_ne]
  split_ifs <;> omega

theorem daysBefore_le (hlt : y < y') : daysBefore y 1 1 + daysInYear y ≤ daysBefore y' 1 1 :=
  add_size_le (fun y => daysBefore y 1 1) daysInYear (fun x _ _ => ⟨daysBefore_succ x, daysInYear_pos x⟩) hlt

/-- A day has its place in the year. -/
theorem IsDate.dayOfYear (h : IsDate y m d) :
    0 ≤ daysBeforeMonth y m + (d - 1) ∧ daysBeforeMonth y m + (d - 1) < daysInYear y := by
  obtain ⟨⟨hm, hm'⟩, hd, hd'⟩ := h
  have hfirst : 0 ≤ daysBeforeMonth y m := by
    rcases (Int.lt_or_eq_of_le hm).symm with rfl | hlt
    · exact Int.le_refl 0
    · have hle := daysBeforeMonth_le y (Int.le_refl 1) hm' hlt
      have hsize := daysInMonth_pos y 1
      rw [daysBeforeMonth_one] at hle
      omega
  have hlast : daysBeforeMonth y m + daysInMonth y m ≤ daysInYear y := by
    rw [← daysBeforeMonth_december]
    rcases (Int.lt_or_eq_of_le hm').symm with rfl | hlt
    · exact Int.le_refl _
    · have hle := daysBeforeMonth_le y hm (Int.le_refl 12) hlt
      have hsize := daysInMonth_pos y 12
      omega
  omega

/-- **Every day counts one.** -/
theorem daysBefore_dayAfter (h : IsDate y m d) :
    daysBefore (dayAfter y m d).1 (dayAfter y m d).2.1 (dayAfter y m d).2.2 = daysBefore y m d + 1 := by
  obtain ⟨⟨hm, hm'⟩, -, hd⟩ := h
  rw [daysBefore_eq y m d]
  unfold dayAfter
  split_ifs with hday hmonth
  · rw [daysBefore_eq]
    dsimp only
    omega
  · rw [daysBefore_eq, daysBeforeMonth_succ y hm hmonth]
    dsimp only
    omega
  · have hyear := daysBeforeMonth_december y
    obtain rfl : m = 12 := by omega
    rw [daysBefore_succ]
    omega

/-- **Later dates have larger numbers.** -/
theorem daysBefore_lt_iff (h : IsDate y m d) (h' : IsDate y' m' d') :
    daysBefore y m d < daysBefore y' m' d' ↔ y < y' ∨ y = y' ∧ (m < m' ∨ m = m' ∧ d < d') := by
  rw [daysBefore_eq y m d, daysBefore_eq y' m' d']
  refine (block_lt_iff (fun y => daysBefore y 1 1) daysInYear daysBefore_le daysBefore_le h.dayOfYear
    h'.dayOfYear).trans (or_congr_right (and_congr_right ?_))
  rintro rfl
  have hd := h.inMonth
  have hd' := h'.inMonth
  refine (block_lt_iff _ (daysInMonth y) (daysBeforeMonth_le y h.inYear.1 h'.inYear.2)
    (daysBeforeMonth_le y h'.inYear.1 h.inYear.2) (by omega) (by omega)).trans
      (or_congr_right (and_congr_right fun _ => ?_))
  omega

theorem daysBefore_eq_iff (h : IsDate y m d) (h' : IsDate y' m' d') :
    daysBefore y m d = daysBefore y' m' d' ↔ y = y' ∧ m = m' ∧ d = d' := by
  have hlt := daysBefore_lt_iff h h'
  have hgt := daysBefore_lt_iff h' h
  constructor
  · intro heq
    omega
  · rintro ⟨rfl, rfl, rfl⟩
    rfl

/-! ### Moments -/

namespace Moment

/-- The date is in the calendar, and the time of day is one that a clock shows. -/
structure Valid (m : Moment) : Prop where
  date : IsDate m.year m.month m.day
  hour : 0 ≤ m.hour ∧ m.hour < 24
  minute : 0 ≤ m.minute ∧ m.minute < 60
  second : 0 ≤ m.second ∧ m.second < 60
  microsecond : 0 ≤ m.microsecond ∧ m.microsecond < 1000000

/-- What calendar and clock show, from the year down. -/
def fields (m : Moment) : List Int := [m.year, m.month, m.day, m.hour, m.minute, m.second, m.microsecond]

variable {m n : Moment}

theorem fields_lt_iff : m.fields < n.fields ↔ m.year < n.year ∨ m.year = n.year ∧ (m.month < n.month ∨
    m.month = n.month ∧ (m.day < n.day ∨ m.day = n.day ∧ (m.hour < n.hour ∨ m.hour = n.hour ∧
      (m.minute < n.minute ∨ m.minute = n.minute ∧ (m.second < n.second ∨ m.second = n.second ∧
        m.microsecond < n.microsecond))))) := by
  simp only [fields, List.cons_lt_cons_iff, List.not_lt_nil, and_false, or_false]

theorem fields_eq_iff : m.fields = n.fields ↔ m.year = n.year ∧ m.month = n.month ∧ m.day = n.day ∧ m.hour = n.hour ∧
    m.minute = n.minute ∧ m.second = n.second ∧ m.microsecond = n.microsecond := by
  simp only [fields, List.cons.injEq, and_true]

/-- **Points in time are ordered like what calendar and clock show**, on clocks that are set alike. -/
theorem instant_lt_iff_fields (hm : m.Valid) (hn : n.Valid) (hoffset : m.offset.getD 0 = n.offset.getD 0) :
    m.instant < n.instant ↔ m.fields < n.fields := by
  have hday := daysBefore_lt_iff hm.date hn.date
  have hsame := daysBefore_eq_iff hm.date hn.date
  obtain ⟨-, hh, hmi, hs, hu⟩ := hm
  obtain ⟨-, hh', hmi', hs', hu'⟩ := hn
  -- the days decide, and the time of day where they are the same
  have htime : m.instant < n.instant ↔ daysBefore m.year m.month m.day < daysBefore n.year n.month n.day ∨
      daysBefore m.year m.month m.day = daysBefore n.year n.month n.day ∧ (m.hour < n.hour ∨ m.hour = n.hour ∧
        (m.minute < n.minute ∨ m.minute = n.minute ∧ (m.second < n.second ∨ m.second = n.second ∧
          m.microsecond < n.microsecond))) := by
    unfold instant clock
    omega
  rw [htime, hday, hsame, fields_lt_iff]
  simp only [and_or_left, or_assoc, and_assoc]

theorem instant_eq_iff_fields (hm : m.Valid) (hn : n.Valid) (hoffset : m.offset.getD 0 = n.offset.getD 0) :
    m.instant = n.instant ↔ m.fields = n.fields := by
  have hsame := daysBefore_eq_iff hm.date hn.date
  obtain ⟨-, hh, hmi, hs, hu⟩ := hm
  obtain ⟨-, hh', hmi', hs', hu'⟩ := hn
  have htime : m.instant = n.instant ↔ daysBefore m.year m.month m.day = daysBefore n.year n.month n.day ∧
      m.hour = n.hour ∧ m.minute = n.minute ∧ m.second = n.second ∧ m.microsecond = n.microsecond := by
    unfold instant clock
    omega
  rw [htime, hsame, fields_eq_iff]
  simp only [and_assoc]

end Moment

end LanguageUsage
