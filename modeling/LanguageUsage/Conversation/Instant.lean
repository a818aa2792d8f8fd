/-!
# Points in time

A message says when it was sent by the calendar and the clock of some place, and by how many whole
seconds this clock is ahead of universal time. Two such times are compared as points in time; one without
an offset is read as universal time. What a clock shows in the hour in which it is set back, and that two
times may be read off one and the same clock, plays no part.

* `Moment`: date, time of day and offset;
* `daysBefore`: the days from the start of the calendar to a date;
* `Moment.instant`: the point in time, in microseconds.
-/

namespace LanguageUsage

/-- A date and time of day, and by how many seconds the clock is ahead of universal time. -/
structure Moment where
  year : Int
  month : Int
  day : Int
  hour : Int
  minute : Int
  second : Int
  microsecond : Int
  offset : Option Int
  deriving DecidableEq, Repr, Inhabited

/-- A year with a twenty-ninth of February. -/
def isLeapYear (year : Int) : Bool :=
  year % 4 == 0 && (year % 100 != 0 || year % 400 == 0)

/-- The days of a year that lie before a month of it. -/
def daysBeforeMonth (year month : Int) : Int :=
  let common := [0, 31, 59, 90, 120, 151, 181, 212, 243, 273, 304, 334]
  (common[(month - 1).toNat]?).getD 334 + if month > 2 && isLeapYear year then 1 else 0

/-- The days from the first of January of year one to a date. -/
def daysBefore (year month day : Int) : Int :=
  let y := year - 1
  y * 365 + y / 4 - y / 100 + y / 400 + daysBeforeMonth year month + (day - 1)

namespace Moment

/-- Microseconds since the start of year one, by the moment's own clock. -/
def clock (m : Moment) : Int :=
  (((daysBefore m.year m.month m.day * 24 + m.hour) * 60 + m.minute) * 60 + m.second) * 1000000
    + m.microsecond

/-- The point in time, in microseconds of universal time since the start of year one. -/
def instant (m : Moment) : Int := m.clock - (m.offset.getD 0) * 1000000

/-- The moment with its offset written out. -/
def withOffset (m : Moment) : Moment := { m with offset := some (m.offset.getD 0) }

@[simp] theorem instant_withOffset (m : Moment) : m.withOffset.instant = m.instant := rfl

end Moment

end LanguageUsage
