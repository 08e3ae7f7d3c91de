/-!
# Calendar dates

The day and the time of day, in coordinated universal time, of a number of
seconds since the start of 1970.  Days are counted in the Gregorian calendar,
extended without end in both directions.
-/

namespace TokenMint.Log

/-- A date and a time of day, without the year. -/
structure Calendar where
  month : Nat
  day : Nat
  hour : Nat
  minute : Nat
  second : Nat
deriving DecidableEq, Repr

namespace Calendar

/-- Days in a cycle of 400 years. -/
def cycleDays : Nat := 146097

/-- Day number 0 of a cycle is the first of March in a year divisible by 400.
The first of January 1970 is this many days after such a day. -/
def epochDay : Int := 719468

/-- The year of a cycle, counted from March, that a day of the cycle falls in. -/
def yearOfCycle (day : Nat) : Nat :=
  (day - day / 1460 + day / 36524 - day / 146096) / 365

/-- How many days a year of the cycle is after its first March. -/
def dayOfYear (day : Nat) : Nat :=
  let year := yearOfCycle day
  day - (365 * year + year / 4 - year / 100)

/-- The month, with March as 0, that a day of the year counted from March falls
in. -/
def monthFromMarch (dayOfYear : Nat) : Nat :=
  (5 * dayOfYear + 2) / 153

/-- Month and day of the month of a day of the cycle. -/
def monthAndDay (day : Nat) : Nat × Nat :=
  let inYear := dayOfYear day
  let month := monthFromMarch inYear
  (if month < 10 then month + 3 else month - 9, inYear - (153 * month + 2) / 5 + 1)

/-- The date and the time of day at `seconds` after the start of 1970. -/
def ofEpoch (seconds : Int) : Calendar :=
  let dayNumber := seconds.fdiv 86400 + epochDay
  let secondOfDay := (seconds.fmod 86400).toNat
  let (month, day) := monthAndDay (dayNumber.fmod cycleDays).toNat
  ⟨month, day, secondOfDay / 3600, secondOfDay / 60 % 60, secondOfDay % 60⟩

end Calendar

end TokenMint.Log
