/-!
# Moments

A moment is a date of the Gregorian calendar with a time of day, without a time zone. The day of the week, the
day of the year and the three numberings of weeks follow from the date.
-/

namespace LayeredConfig

/-- A date and a time of day; months and days count from one. -/
structure Moment where
  year : Nat
  month : Nat
  day : Nat
  hour : Nat
  minute : Nat
  second : Nat
  microsecond : Nat
  deriving DecidableEq, Repr

namespace Moment

/-- Whether a year has a twenty-ninth of February. -/
def isLeap (year : Nat) : Bool :=
  year % 4 == 0 && (year % 100 != 0 || year % 400 == 0)

/-- The number of days of a year before its months, from January on. -/
def daysBefore : List Nat := [0, 31, 59, 90, 120, 151, 181, 212, 243, 273, 304, 334]

/-- The number of days of the year before this one. -/
def dayOfYear (moment : Moment) : Nat :=
  daysBefore.getD (moment.month - 1) 0 + (moment.day - 1)
    + (if isLeap moment.year && decide (2 < moment.month) then 1 else 0)

/-- The number of days from the first day of year one to the first of this year. -/
def daysToYear (year : Nat) : Nat :=
  let past := year - 1
  365 * past + past / 4 - past / 100 + past / 400

/-- The day of the week of the first day of a year, counted from Monday as zero. -/
def firstWeekday (year : Nat) : Nat :=
  daysToYear year % 7

/-- The day of the week, counted from Monday as zero. -/
def weekday (moment : Moment) : Nat :=
  (daysToYear moment.year + moment.dayOfYear) % 7

/-- The day of the week, counted from Sunday as zero. -/
def weekdayFromSunday (moment : Moment) : Nat :=
  (moment.weekday + 1) % 7

/-- The number of the week when weeks begin on Sunday; days before the first Sunday are in week zero. -/
def sundayWeek (moment : Moment) : Nat :=
  (moment.dayOfYear + 7 - moment.weekdayFromSunday) / 7

/-- The number of the week when weeks begin on Monday; days before the first Monday are in week zero. -/
def mondayWeek (moment : Moment) : Nat :=
  (moment.dayOfYear + 7 - moment.weekday) / 7

/-- The number of numbered weeks of a year: one more when it begins on a Thursday, or on a Wednesday and is
a leap year. -/
def weeksOfYear (year : Nat) : Nat :=
  if firstWeekday year == 3 || (firstWeekday year == 2 && isLeap year) then 53 else 52

/-- The year and number of the week when the first week is the one with the first Thursday. -/
def numberedWeek (moment : Moment) : Nat × Nat :=
  let week := (moment.dayOfYear + 10 - moment.weekday) / 7
  if week = 0 then (moment.year - 1, weeksOfYear (moment.year - 1))
  else if weeksOfYear moment.year < week then (moment.year + 1, 1)
  else (moment.year, week)

/-- The number of seconds from the beginning of 1970, for a moment of universal time. -/
def secondsSinceEpoch (moment : Moment) : Int :=
  let days : Int := daysToYear moment.year + moment.dayOfYear - daysToYear 1970
  86400 * days + (3600 * moment.hour + 60 * moment.minute + moment.second)

/-- The hour on a clock face. -/
def clockHour (moment : Moment) : Nat :=
  if moment.hour % 12 = 0 then 12 else moment.hour % 12

end Moment

end LayeredConfig
