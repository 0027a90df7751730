/-!
# Dates and times

Databases count days and microseconds from the beginning of the year 2000. Here such counts are
turned into dates of the Gregorian calendar, continued without end in both directions, and dates and
times into text.

The calendar is easiest to compute when a year is taken to begin with the first of March: a leap day
is then the last day of its year, and the months have the same lengths in every year. Four hundred
years always have the same number of days.

* `Date.ofDays` is the date so many days after the first of January 2000.
* `Moment.ofMicroseconds` is the date and time of day so many microseconds after its beginning.
-/

namespace LinkQuery

/-- A day of the Gregorian calendar. Year 0 is the year before year 1. -/
structure Date where
  year : Int
  /-- From 1 for January to 12 for December. -/
  month : Nat
  day : Nat
  deriving DecidableEq, Repr

namespace Date

/-- The number of days in four hundred years. -/
def daysPerEra : Int := 146097

/-- The number of days from the first of March of year 0 to the first of January 2000. -/
def daysBefore2000 : Int := 730425

/-- The year of an era of four hundred years, given the day of the era. Days that end a period of
four, a hundred or four hundred years are leap days, which belong to the year before. -/
def yearOfEra (day : Nat) : Nat := (day - day / 1460 + day / 36524 - day / 146096) / 365

/-- The date so many days after the first of January 2000. -/
def ofDays (days : Int) : Date :=
  let sinceMarch := days + daysBefore2000
  let era := sinceMarch.fdiv daysPerEra
  let dayOfEra := (sinceMarch.fmod daysPerEra).toNat
  let yearOfEra := yearOfEra dayOfEra
  let dayOfYear := dayOfEra - (365 * yearOfEra + yearOfEra / 4 - yearOfEra / 100)
  -- The months from March on, in runs of five with 153 days.
  let monthFromMarch := (5 * dayOfYear + 2) / 153
  let day := dayOfYear - (153 * monthFromMarch + 2) / 5 + 1
  let month := if monthFromMarch < 10 then monthFromMarch + 3 else monthFromMarch - 9
  let year : Int := era * 400 + yearOfEra
  ⟨if month ≤ 2 then year + 1 else year, month, day⟩

end Date

/-- The digits of a number, with zeros before them if they are fewer than `width`. -/
def padded (width n : Nat) : String :=
  let digits := Nat.toDigits 10 n
  String.ofList (List.replicate (width - digits.length) '0' ++ digits)

namespace Date

/-- The text of a year: four digits from year 0 to year 9999, a sign and at least four digits before
and after. -/
def yearText (year : Int) : String :=
  if year < 0 then "-" ++ padded 4 year.natAbs
  else if 9999 < year then "+" ++ padded 4 year.natAbs
  else padded 4 year.natAbs

/-- The text of a date. -/
def text (d : Date) : String := yearText d.year ++ "-" ++ padded 2 d.month ++ "-" ++ padded 2 d.day

end Date

/-- A date and a time of day, in microseconds. -/
structure Moment where
  date : Date
  microseconds : Nat
  deriving DecidableEq, Repr

namespace Moment

/-- The number of microseconds in a day. -/
def microsecondsPerDay : Int := 86400000000

/-- The moment so many microseconds after the beginning of the year 2000. -/
def ofMicroseconds (n : Int) : Moment :=
  ⟨Date.ofDays (n.fdiv microsecondsPerDay), (n.fmod microsecondsPerDay).toNat⟩

/-- The text of a fraction of a second: none if it is zero, three digits if it consists of whole
milliseconds, six otherwise. -/
def fractionText (microseconds : Nat) : String :=
  if microseconds = 0 then ""
  else if microseconds % 1000 = 0 then "." ++ padded 3 (microseconds / 1000)
  else "." ++ padded 6 microseconds

/-- The text of a time of day. -/
def timeText (microseconds : Nat) : String :=
  let seconds := microseconds / 1000000
  padded 2 (seconds / 3600) ++ ":" ++ padded 2 (seconds / 60 % 60) ++ ":" ++
    padded 2 (seconds % 60) ++ fractionText (microseconds % 1000000)

/-- The text of a moment, with `separator` between the date and the time. -/
def text (separator : String) (m : Moment) : String :=
  m.date.text ++ separator ++ timeText m.microseconds

end Moment

end LinkQuery
