import Mathlib.Logic.Function.Iterate
import Mathlib.Tactic.SplitIfs
import TokenMint.Log.Calendar

/-!
# Dates day by day

A date is what counting day by day from the first of January 1970 leads to, forwards or
backwards, with months of their usual lengths and a leap day in every fourth year but for
three in four hundred.  The date that the calendar gives for a number of seconds is that of
its day, and the time of day is what is left; no other date and time of day tell it.
-/

namespace TokenMint.Log

/-- Whether a year has a leap day. -/
def isLeap (year : Int) : Bool :=
  year % 4 = 0 ∧ (year % 100 ≠ 0 ∨ year % 400 = 0)

/-- How many days a month has, in a leap year or in another. -/
def monthLength (leap : Bool) (month : Nat) : Nat :=
  if month = 2 then 28 + leap.toNat else if month ∈ [4, 6, 9, 11] then 30 else 31

/-- A day, as the calendar names it. -/
@[ext]
structure Date where
  year : Int
  month : Nat
  day : Nat
deriving DecidableEq, Repr

namespace Date

/-- How many days the month of a date has. -/
def daysInMonth (date : Date) : Nat :=
  monthLength (isLeap date.year) date.month

/-- There is a month of this number, and it has this day. -/
structure Valid (date : Date) : Prop where
  month : 1 ≤ date.month ∧ date.month ≤ 12
  day : 1 ≤ date.day ∧ date.day ≤ date.daysInMonth

/-- The day after a date. -/
def next (date : Date) : Date :=
  if date.day < date.daysInMonth then ⟨date.year, date.month, date.day + 1⟩
  else if date.month < 12 then ⟨date.year, date.month + 1, 1⟩
  else ⟨date.year + 1, 1, 1⟩

/-- The first of January 1970. -/
def epoch : Date :=
  ⟨1970, 1, 1⟩

/-- A date is so many days after the first of January 1970, or before it if their number is
negative: counted day by day, the earlier of the two dates leads to the later. -/
structure IsAt (days : Int) (date : Date) : Prop where
  valid : date.Valid
  counted : next^[days.toNat] epoch = next^[(-days).toNat] date

end Date

/-- A calendar tells the date and the time of day, in coordinated universal time, so many
seconds after the start of 1970, or before it if their number is negative. -/
structure Calendar.Tells (calendar : Calendar) (seconds : Int) : Prop where
  date : ∃ year, Date.IsAt (seconds / 86400) ⟨year, calendar.month, calendar.day⟩
  bounds : calendar.hour < 24 ∧ calendar.minute < 60 ∧ calendar.second < 60
  time : (3600 * calendar.hour + 60 * calendar.minute + calendar.second : Nat) = seconds % 86400

theorem monthLength_bounds (leap : Bool) (month : Nat) :
    28 ≤ monthLength leap month ∧ monthLength leap month ≤ 31 := by
  have hleap : leap.toNat ≤ 1 := Bool.toNat_le leap
  rw [monthLength]
  split_ifs <;> omega

namespace Date

variable {a b date : Date}

/-- The day after is in the same month, or the first of the next, or the first of a year. -/
theorem Valid.next_cases (hdate : date.Valid) :
    date.day < date.daysInMonth ∧ date.next = ⟨date.year, date.month, date.day + 1⟩ ∨
      date.day = date.daysInMonth ∧ date.month < 12 ∧
        date.next = ⟨date.year, date.month + 1, 1⟩ ∨
      date.day = date.daysInMonth ∧ date.month = 12 ∧ date.next = ⟨date.year + 1, 1, 1⟩ := by
  by_cases hwithin : date.day < date.daysInMonth
  · exact .inl ⟨hwithin, if_pos hwithin⟩
  · have hlast : date.day = date.daysInMonth :=
      Nat.le_antisymm hdate.day.2 (Nat.not_lt.mp hwithin)
    rw [next, if_neg hwithin]
    by_cases hmore : date.month < 12
    · exact .inr (.inl ⟨hlast, hmore, if_pos hmore⟩)
    · have hdecember : date.month = 12 := Nat.le_antisymm hdate.month.2 (Nat.not_lt.mp hmore)
      exact .inr (.inr ⟨hlast, hdecember, if_neg hmore⟩)

theorem Valid.next_valid (hdate : date.Valid) : date.next.Valid := by
  have hlong (other : Date) : 1 ≤ other.daysInMonth :=
    Nat.le_trans (by decide) (monthLength_bounds _ _).1
  rcases hdate.next_cases with ⟨hwithin, hnext⟩ | ⟨-, hmore, hnext⟩ | ⟨-, -, hnext⟩
  · rw [hnext]
    exact ⟨hdate.month, Nat.le_add_left 1 _, hwithin⟩
  · rw [hnext]
    exact ⟨⟨Nat.le_add_left 1 _, hmore⟩, Nat.le_refl 1, hlong _⟩
  · rw [hnext]
    exact ⟨⟨Nat.le_refl 1, Nat.le_add_left 1 11⟩, Nat.le_refl 1, hlong _⟩

/-- The day before a date. -/
def previous (date : Date) : Date :=
  if 1 < date.day then ⟨date.year, date.month, date.day - 1⟩
  else if 1 < date.month then
    ⟨date.year, date.month - 1, monthLength (isLeap date.year) (date.month - 1)⟩
  else ⟨date.year - 1, 12, 31⟩

theorem Valid.previous_next (hdate : date.Valid) : date.next.previous = date := by
  rcases hdate.next_cases with ⟨-, hnext⟩ | ⟨hlast, -, hnext⟩ | ⟨hlast, hdecember, hnext⟩
  · rw [hnext, previous, if_pos (Nat.lt_add_of_pos_left hdate.day.1)]
    rfl
  · rw [hnext, previous, if_neg (Nat.lt_irrefl 1), if_pos (Nat.lt_add_of_pos_left hdate.month.1)]
    change (⟨date.year, date.month, date.daysInMonth⟩ : Date) = date
    rw [← hlast]
  · have hday : date.day = 31 := by
      rw [hlast, daysInMonth, hdecember]
      rfl
    rw [hnext, previous, if_neg (Nat.lt_irrefl 1), if_neg (Nat.lt_irrefl 1)]
    exact Date.ext (Int.add_sub_cancel date.year 1) hdecember.symm hday.symm

/-- Counting on from two dates leads to two dates. -/
theorem Valid.eq_of_iterate_next {count : Nat} (ha : a.Valid) (hb : b.Valid)
    (hnext : next^[count] a = next^[count] b) : a = b := by
  induction count generalizing a b with
  | zero => exact hnext
  | succ count ih =>
      rw [Function.iterate_succ_apply, Function.iterate_succ_apply] at hnext
      have hsame := ih ha.next_valid hb.next_valid hnext
      rw [← ha.previous_next, hsame, hb.previous_next]

theorem IsAt.unique {days : Int} (ha : IsAt days a) (hb : IsAt days b) : a = b :=
  ha.valid.eq_of_iterate_next hb.valid (ha.counted.symm.trans hb.counted)

end Date

namespace Calendar

theorem Tells.date_le {calendar : Calendar} {seconds : Int} (htells : calendar.Tells seconds) :
    calendar.month ≤ 12 ∧ calendar.day ≤ 31 := by
  obtain ⟨year, hdate⟩ := htells.date
  exact ⟨hdate.valid.month.2, Nat.le_trans hdate.valid.day.2 (monthLength_bounds _ _).2⟩

section Years

variable {day year : Int} {place : Nat}

theorem toNat_isLeap (year : Int) :
    (isLeap year).toNat =
      if year % 4 = 0 ∧ (year % 100 ≠ 0 ∨ year % 400 = 0) then 1 else 0 := by
  split
  case isTrue hleap =>
    rw [isLeap, decide_eq_true hleap]
    rfl
  case isFalse hplain =>
    rw [isLeap, decide_eq_false hplain]
    rfl

/-- How many days the first of March of a year is after that of the year 0. -/
def firstMarch (year : Int) : Int :=
  365 * year + year / 4 - year / 100 + year / 400

/-- From March to March it takes 365 days, and one more with a leap day between. -/
theorem firstMarch_succ (year : Int) :
    firstMarch (year + 1) = firstMarch year + 365 + (isLeap (year + 1)).toNat := by
  have hfour : (year + 1) / 4 = year / 4 + if (year + 1) % 4 = 0 then 1 else 0 := by
    split <;> omega
  have hcentury : (year + 1) / 100 = year / 100 + if (year + 1) % 100 = 0 then 1 else 0 := by
    split <;> omega
  have hcycle : (year + 1) / 400 = year / 400 + if (year + 1) % 400 = 0 then 1 else 0 := by
    split <;> omega
  have hcenturyFour : (year + 1) % 100 = 0 → (year + 1) % 4 = 0 := by omega
  have hcycleCentury : (year + 1) % 400 = 0 → (year + 1) % 100 = 0 := by omega
  rw [firstMarch, firstMarch, toNat_isLeap, hfour, hcentury, hcycle]
  clear hfour hcentury hcycle
  generalize (year + 1) % 4 = four, (year + 1) % 100 = century, (year + 1) % 400 = cycle at *
  split_ifs <;> omega

/-- A day, counted from the first of March of the year 0, has this place, counted from 0, in
the year from March to March that starts in the year of this number. -/
structure InYear (day year : Int) (place : Nat) : Prop where
  day_eq : day = firstMarch year + place
  place_lt : place < 365 + (isLeap (year + 1)).toNat

/-- Behind a day comes the next of its year, and behind the last one the first of the year
after it. -/
theorem InYear.succ (hday : InYear day year place) :
    InYear (day + 1) year (place + 1) ∨
      place = 364 + (isLeap (year + 1)).toNat ∧ InYear (day + 1) (year + 1) 0 := by
  obtain ⟨hsum, hlt⟩ := hday
  by_cases hlast : place = 364 + (isLeap (year + 1)).toNat
  · right
    refine ⟨hlast, ?_, by omega⟩
    rw [firstMarch_succ, hsum, hlast]
    omega
  · left
    exact ⟨by omega, by omega⟩

/-- A year by its place in a cycle of 400 years: the century, the span of four years in the
century, and the year in the span. -/
structure Places where
  cycle : Int
  century : Nat
  span : Nat
  rest : Nat
  century_lt : century < 4
  span_lt : span < 25
  rest_lt : rest < 4

namespace Places

/-- The number of the year in its cycle. -/
def inCycle (places : Places) : Nat :=
  100 * places.century + 4 * places.span + places.rest

def number (places : Places) : Int :=
  400 * places.cycle + places.inCycle

/-- How many days of the cycle are before the first March of the year. -/
def daysBefore (places : Places) : Nat :=
  36524 * places.century + 1461 * places.span + 365 * places.rest

/-- How many leap days a year from March to March has: one if it is the last of a span, but
none at the end of the first three centuries. -/
def leapDays (places : Places) : Nat :=
  if places.rest = 3 ∧ (places.span < 24 ∨ places.century = 3) then 1 else 0

theorem exists_of_number (year : Int) : ∃ places : Places, places.number = year := by
  have hnonneg : 0 ≤ year % 400 := Int.emod_nonneg year (by decide)
  obtain ⟨rest, hrest⟩ := Int.eq_ofNat_of_zero_le hnonneg
  have hlt : rest < 400 := by omega
  have hsum : 100 * (rest / 100) + 4 * (rest % 100 / 4) + rest % 4 = rest := by omega
  refine ⟨⟨year / 400, rest / 100, rest % 100 / 4, rest % 4, by omega, by omega, by omega⟩, ?_⟩
  rw [number, inCycle, hsum, ← hrest]
  exact Int.mul_ediv_add_emod year 400

theorem firstMarch_number (places : Places) :
    firstMarch places.number = 146097 * places.cycle + places.daysBefore := by
  obtain ⟨cycle, century, span, rest, hcentury, hspan, hrest⟩ := places
  have hfours : (400 * cycle + (100 * century + 4 * span + rest : Nat)) / 4 =
      100 * cycle + 25 * century + span := by omega
  have hcenturies : (400 * cycle + (100 * century + 4 * span + rest : Nat)) / 100 =
      4 * cycle + century := by omega
  have hcycles : (400 * cycle + (100 * century + 4 * span + rest : Nat)) / 400 = cycle := by
    omega
  simp only [firstMarch, number, inCycle, daysBefore, hfours, hcenturies, hcycles]
  omega

theorem toNat_isLeap_number (places : Places) :
    (isLeap (places.number + 1)).toNat = places.leapDays := by
  obtain ⟨cycle, century, span, rest, hcentury, hspan, hrest⟩ := places
  have hfour : (400 * cycle + (100 * century + 4 * span + rest : Nat) + 1) % 4 = 0 ↔
      rest = 3 := by omega
  have hhundred : (400 * cycle + (100 * century + 4 * span + rest : Nat) + 1) % 100 = 0 ↔
      rest = 3 ∧ span = 24 := by omega
  have hcycle : (400 * cycle + (100 * century + 4 * span + rest : Nat) + 1) % 400 = 0 ↔
      rest = 3 ∧ span = 24 ∧ century = 3 := by omega
  simp only [toNat_isLeap, number, inCycle, leapDays, Ne, hfour, hhundred, hcycle]
  split_ifs <;> omega

/-- Every day of a cycle is in one of its years. -/
theorem exists_of_day {day : Nat} (hday : day < 146097) (cycle : Int) :
    ∃ (places : Places) (place : Nat), places.cycle = cycle ∧
      day = places.daysBefore + place ∧ place < 365 + places.leapDays := by
  obtain ⟨century, inCentury, hcentury, hsum, hlast⟩ : ∃ century inCentury, century < 4 ∧
      day = 36524 * century + inCentury ∧ (inCentury < 36524 ∨ inCentury = 36524 ∧ century = 3) :=
    ⟨min 3 (day / 36524), day - 36524 * min 3 (day / 36524), by omega, by omega, by omega⟩
  obtain ⟨span, inSpan, hspan, hsumSpan, hlastSpan⟩ : ∃ span inSpan, span < 25 ∧
      inCentury = 1461 * span + inSpan ∧ inSpan < 1461 :=
    ⟨inCentury / 1461, inCentury % 1461, by omega, by omega, by omega⟩
  obtain ⟨rest, place, hrest, hsumRest, hlastRest⟩ : ∃ rest place, rest < 4 ∧
      inSpan = 365 * rest + place ∧ (place < 365 ∨ place = 365 ∧ rest = 3) :=
    ⟨min 3 (inSpan / 365), inSpan - 365 * min 3 (inSpan / 365), by omega, by omega, by omega⟩
  refine ⟨⟨cycle, century, span, rest, hcentury, hspan, hrest⟩, place, rfl, ?_, ?_⟩
  · simp only [daysBefore]
    omega
  · simp only [leapDays]
    split_ifs <;> omega

theorem daysBefore_eq (places : Places) :
    365 * places.inCycle + places.inCycle / 4 - places.inCycle / 100 = places.daysBefore := by
  obtain ⟨cycle, century, span, rest, hcentury, hspan, hrest⟩ := places
  simp only [inCycle, daysBefore]
  omega

section Found

variable {place : Nat} (places : Places) (hplace : place < 365 + places.leapDays)
include hplace

theorem daysBefore_add_lt : places.daysBefore + place < 146097 := by
  obtain ⟨cycle, century, span, rest, hcentury, hspan, hrest⟩ := places
  simp only [leapDays, daysBefore] at hplace ⊢
  split_ifs at hplace <;> omega

/-- The year of a cycle is found from any of its days. -/
theorem yearOfCycle_eq : yearOfCycle (places.daysBefore + place) = places.inCycle := by
  obtain ⟨cycle, century, span, rest, hcentury, hspan, hrest⟩ := places
  simp only [leapDays, daysBefore, inCycle] at hplace ⊢
  -- The last day of the cycle is the only one that its four centuries of days leave over.
  obtain ⟨beyond, hbeyond⟩ : ∃ beyond, beyond = if place = 365 ∧ span = 24 then 1 else 0 := ⟨_, rfl⟩
  -- In the last days of a span one span too many is counted, which takes off a day too many.
  obtain ⟨late, hlate⟩ :
      ∃ late, late = if 1460 ≤ 24 * century + span + 365 * rest + place then 1 else 0 := ⟨_, rfl⟩
  have hcenturies : (36524 * century + 1461 * span + 365 * rest + place) / 36524 =
      century + beyond := by
    split_ifs at hplace hbeyond <;> omega
  have hcycles : (36524 * century + 1461 * span + 365 * rest + place) / 146096 = beyond := by
    split_ifs at hplace hbeyond <;> omega
  have hspans : (36524 * century + 1461 * span + 365 * rest + place) / 1460 =
      25 * century + span + late := by
    split_ifs at hplace hlate <;> omega
  have hwithin : late ≤ place ∧ place - late < 365 := by
    split_ifs at hplace hlate <;> omega
  have hdays : 36524 * century + 1461 * span + 365 * rest + place - (25 * century + span + late) +
      (century + beyond) - beyond =
        365 * (100 * century + 4 * span + rest) + (place - late) := by
    omega
  rw [yearOfCycle, hcenturies, hcycles, hspans, hdays, Nat.mul_add_div (by decide),
    Nat.div_eq_of_lt hwithin.2, Nat.add_zero]

/-- What is left of a day of the cycle without the days before its year is its place. -/
theorem dayOfYear_eq : dayOfYear (places.daysBefore + place) = place := by
  simp only [dayOfYear, places.yearOfCycle_eq hplace, places.daysBefore_eq]
  exact Nat.add_sub_cancel_left _ _

end Found

end Places

theorem exists_inYear (day : Int) : ∃ year place, InYear day year place := by
  have hrest : (day % 146097).toNat < 146097 := by omega
  obtain ⟨places, place, hcycle, hday, hplace⟩ := Places.exists_of_day hrest (day / 146097)
  refine ⟨places.number, place, ?_, ?_⟩
  · rw [places.firstMarch_number, hcycle]
    omega
  · rw [places.toNat_isLeap_number]
    exact hplace

/-- The calendar finds the year of a day and its place in the year. -/
theorem InYear.found (hday : InYear day year place) :
    400 * (day / 146097) + yearOfCycle (day % 146097).toNat = year ∧
      dayOfYear (day % 146097).toNat = place := by
  obtain ⟨places, rfl⟩ := Places.exists_of_number year
  obtain ⟨hsum, hplace⟩ := hday
  rw [places.firstMarch_number] at hsum
  rw [places.toNat_isLeap_number] at hplace
  have hbefore := places.daysBefore_add_lt hplace
  have hcycle : day / 146097 = places.cycle := by omega
  have hrest : (day % 146097).toNat = places.daysBefore + place := by omega
  rw [hcycle, hrest, places.yearOfCycle_eq hplace, places.dayOfYear_eq hplace]
  exact ⟨rfl, rfl⟩

end Years

section Months

variable {year : Int} {place month offset : Nat} {leap : Bool}

/-- The number of a month that is counted from March, with March as 0. -/
def monthNumber (month : Nat) : Nat :=
  if month < 10 then month + 3 else month - 9

/-- The place in a year from March to March at which a month starts. -/
def monthStart (month : Nat) : Nat :=
  (153 * month + 2) / 5

/-- Month and day of the month of a day of the year counted from March. -/
def fromMarch (place : Nat) : Nat × Nat :=
  let month := monthFromMarch place
  (monthNumber month, place - monthStart month + 1)

/-- The places of a month are those from its start up to the start of the next. -/
theorem monthFromMarch_eq_iff :
    monthFromMarch place = month ↔ monthStart month ≤ place ∧ place < monthStart (month + 1) := by
  rw [monthFromMarch, monthStart, monthStart]
  omega

/-- Before February each month has its length, and the next one follows it. -/
theorem monthStart_succ : ∀ month < 11, ∀ leap : Bool,
    monthStart (month + 1) = monthStart month + monthLength leap (monthNumber month) := by
  decide

theorem monthNumber_succ : ∀ month < 11, monthNumber month ≠ 2 ∧
    monthNumber (month + 1) = if monthNumber month < 12 then monthNumber month + 1 else 1 := by
  decide

theorem monthNumber_bounds : ∀ month < 12, 1 ≤ monthNumber month ∧ monthNumber month ≤ 12 := by
  decide

/-- A day of a year is in one of twelve months, the last of which is February. -/
theorem exists_month (hplace : place < 365 + leap.toNat) :
    ∃ month offset, month < 12 ∧ place = monthStart month + offset ∧
      offset < monthLength leap (monthNumber month) := by
  have hleap : leap.toNat ≤ 1 := Bool.toNat_le leap
  obtain ⟨hstart, hend⟩ := monthFromMarch_eq_iff.mp (Eq.refl (monthFromMarch place))
  generalize monthFromMarch place = month at hstart hend
  refine ⟨month, place - monthStart month, ?_, by omega, ?_⟩
  · rw [monthStart] at hstart
    omega
  · by_cases hmore : month < 11
    · have hlength := monthStart_succ month hmore leap
      omega
    · have hlast : month = 11 := by
        rw [monthStart] at hstart
        omega
      rw [hlast]
      change place - 337 < 28 + leap.toNat
      omega

theorem fromMarch_add (hmonth : month < 12)
    (hoffset : offset < monthLength leap (monthNumber month)) :
    fromMarch (monthStart month + offset) = (monthNumber month, offset + 1) := by
  have hfits : monthStart month + offset < monthStart (month + 1) := by
    by_cases hmore : month < 11
    · rw [monthStart_succ month hmore leap]
      omega
    · have hlast : month = 11 := by omega
      have hfebruary := Bool.toNat_le leap
      subst hlast
      change offset < 28 + leap.toNat at hoffset
      change 337 + offset < 367
      omega
  have hfound := monthFromMarch_eq_iff.mpr ⟨Nat.le_add_right _ offset, hfits⟩
  rw [fromMarch, hfound, Nat.add_sub_cancel_left]

theorem fromMarch_valid (hplace : place < 365 + leap.toNat) :
    (1 ≤ (fromMarch place).1 ∧ (fromMarch place).1 ≤ 12) ∧
      1 ≤ (fromMarch place).2 ∧ (fromMarch place).2 ≤ monthLength leap (fromMarch place).1 := by
  obtain ⟨month, offset, hmonth, rfl, hoffset⟩ := exists_month hplace
  rw [fromMarch_add hmonth hoffset]
  exact ⟨monthNumber_bounds month hmonth, Nat.le_add_left 1 offset, hoffset⟩

/-- Up to the last day of February the days of a month follow one another, and behind a month
comes the first day of the next. -/
theorem fromMarch_succ (hplace : place < 364 + leap.toNat) :
    if (fromMarch place).2 < monthLength leap (fromMarch place).1 then
      fromMarch (place + 1) = ((fromMarch place).1, (fromMarch place).2 + 1)
    else (fromMarch place).1 ≠ 2 ∧ fromMarch (place + 1) =
      (if (fromMarch place).1 < 12 then (fromMarch place).1 + 1 else 1, 1) := by
  have hyear : place < 365 + leap.toNat := by omega
  obtain ⟨month, offset, hmonth, rfl, hoffset⟩ := exists_month hyear
  rw [fromMarch_add hmonth hoffset]
  split
  case isTrue hwithin => exact fromMarch_add hmonth hwithin
  case isFalse hend =>
    change ¬ offset + 1 < monthLength leap (monthNumber month) at hend
    have hmore : month < 11 := by
      by_contra hlate
      have hlast : month = 11 := by omega
      subst hlast
      change ¬ offset + 1 < 28 + leap.toNat at hend
      change 337 + offset < 364 + leap.toNat at hplace
      omega
    have hstart := monthStart_succ month hmore leap
    have hnext : monthStart month + offset + 1 = monthStart (month + 1) + 0 := by omega
    have hlong := (monthLength_bounds leap (monthNumber (month + 1))).1
    have hfirst : 0 < monthLength leap (monthNumber (month + 1)) := by omega
    obtain ⟨hplain, hnumber⟩ := monthNumber_succ month hmore
    rw [hnext, fromMarch_add (Nat.succ_lt_succ hmore) hfirst, hnumber]
    exact ⟨hplain, rfl⟩

/-- A year from March to March ends with February. -/
theorem fromMarch_last (leap : Bool) : fromMarch (364 + leap.toNat) = (2, monthLength leap 2) := by
  cases leap <;> rfl

/-- The date of a day by its place in a year from March to March, of which January and
February belong to the next number. -/
def dateFromMarch (year : Int) (place : Nat) : Date :=
  ⟨if (fromMarch place).1 ≤ 2 then year + 1 else year, (fromMarch place).1, (fromMarch place).2⟩

/-- Only the February of a year has a length of its own. -/
theorem daysInMonth_dateFromMarch (year : Int) (place : Nat) :
    (dateFromMarch year place).daysInMonth =
      monthLength (isLeap (year + 1)) (fromMarch place).1 := by
  rw [Date.daysInMonth, dateFromMarch]
  by_cases hmonth : (fromMarch place).1 ≤ 2
  · rw [if_pos hmonth]
  · have hne : (fromMarch place).1 ≠ 2 := by omega
    rw [monthLength, monthLength, if_neg hne, if_neg hne]

theorem dateFromMarch_valid (hplace : place < 365 + (isLeap (year + 1)).toNat) :
    (dateFromMarch year place).Valid := by
  obtain ⟨hmonth, hfirst, hlast⟩ := fromMarch_valid hplace
  rw [← daysInMonth_dateFromMarch] at hlast
  exact ⟨hmonth, hfirst, hlast⟩

theorem next_dateFromMarch (hplace : place < 364 + (isLeap (year + 1)).toNat) :
    (dateFromMarch year place).next = dateFromMarch year (place + 1) := by
  have hsucc := fromMarch_succ hplace
  rw [Date.next, daysInMonth_dateFromMarch]
  split at hsucc
  case isTrue hwithin =>
    rw [dateFromMarch, if_pos hwithin, dateFromMarch, hsucc]
  case isFalse hend =>
    obtain ⟨hmonth, hsucc⟩ := hsucc
    rw [dateFromMarch, if_neg hend, dateFromMarch, hsucc]
    by_cases hmore : (fromMarch place).1 < 12
    · have hhalf : (fromMarch place).1 + 1 ≤ 2 ↔ (fromMarch place).1 ≤ 2 := by omega
      simp only [hmore, hhalf, if_true]
    · have hlate : ¬ (fromMarch place).1 ≤ 2 := by omega
      simp [hmore, hlate]

theorem next_dateFromMarch_last (year : Int) :
    (dateFromMarch year (364 + (isLeap (year + 1)).toNat)).next = dateFromMarch (year + 1) 0 := by
  have hfirst : dateFromMarch (year + 1) 0 = ⟨year + 1, 3, 1⟩ := rfl
  rw [hfirst, Date.next, daysInMonth_dateFromMarch, dateFromMarch, fromMarch_last]
  simp

end Months

section Days

/-- The date so many days after the first of January 1970. -/
def dateOf (days : Int) : Date :=
  let day := days + epochDay
  let rest := (day % 146097).toNat
  dateFromMarch (400 * (day / 146097) + yearOfCycle rest) (dayOfYear rest)

theorem InYear.dateOf_eq {days year : Int} {place : Nat}
    (hday : InYear (days + epochDay) year place) : dateOf days = dateFromMarch year place := by
  obtain ⟨hyear, hplace⟩ := hday.found
  rw [dateOf, hyear, hplace]

theorem dateOf_valid (days : Int) : (dateOf days).Valid := by
  obtain ⟨year, place, hday⟩ := exists_inYear (days + epochDay)
  rw [hday.dateOf_eq]
  exact dateFromMarch_valid hday.place_lt

/-- One day more is the day after. -/
theorem next_dateOf (days : Int) : (dateOf days).next = dateOf (days + 1) := by
  obtain ⟨year, place, hday⟩ := exists_inYear (days + epochDay)
  have hcomm : days + epochDay + 1 = days + 1 + epochDay := Int.add_right_comm _ _ _
  rcases hday.succ with hsame | ⟨hlast, hnew⟩
  · rw [hcomm] at hsame
    rw [hday.dateOf_eq, hsame.dateOf_eq]
    have hplace := hsame.place_lt
    exact next_dateFromMarch (by omega)
  · rw [hcomm] at hnew
    rw [hday.dateOf_eq, hnew.dateOf_eq, hlast]
    exact next_dateFromMarch_last year

theorem iterate_next_dateOf (count : Nat) (days : Int) :
    Date.next^[count] (dateOf days) = dateOf (days + count) := by
  induction count generalizing days with
  | zero =>
      rw [Function.iterate_zero, Int.natCast_zero, Int.add_zero]
      rfl
  | succ count ih =>
      rw [Function.iterate_succ_apply, next_dateOf, ih]
      congr 1
      omega

theorem dateOf_zero : dateOf 0 = Date.epoch := by
  decide

/-- Every day has its date, in both directions. -/
theorem dateOf_isAt (days : Int) : Date.IsAt days (dateOf days) := by
  refine ⟨dateOf_valid days, ?_⟩
  rw [← dateOf_zero, iterate_next_dateOf, iterate_next_dateOf]
  congr 1
  omega

/-- The calendar tells the time. -/
theorem ofEpoch_tells (seconds : Int) : (ofEpoch seconds).Tells seconds := by
  have hdays : seconds.fdiv 86400 = seconds / 86400 :=
    Int.fdiv_eq_ediv_of_nonneg seconds (by decide)
  have hrest : seconds.fmod 86400 = seconds % 86400 :=
    Int.fmod_eq_emod_of_nonneg seconds (by decide)
  have hcycle (day : Int) : day.fmod cycleDays = day % 146097 :=
    Int.fmod_eq_emod_of_nonneg day (by decide)
  rw [ofEpoch, hdays, hrest, hcycle]
  constructor
  · exact ⟨_, dateOf_isAt (seconds / 86400)⟩
  · dsimp only
    omega
  · dsimp only
    omega

/-- The last second of a leap day that a century has, for four divides its number. -/
example : ofEpoch 951868799 = ⟨2, 29, 23, 59, 59⟩ := by
  decide

/-- Only one calendar tells a time. -/
theorem Tells.unique {first second : Calendar} {seconds : Int} (hfirst : first.Tells seconds)
    (hsecond : second.Tells seconds) : first = second := by
  obtain ⟨⟨year, hdate⟩, hbounds, htime⟩ := hfirst
  obtain ⟨⟨year', hdate'⟩, hbounds', htime'⟩ := hsecond
  have hsame := hdate.unique hdate'
  rw [Date.mk.injEq] at hsame
  obtain ⟨-, hmonth, hday⟩ := hsame
  have hclock : first.hour = second.hour ∧ first.minute = second.minute ∧
      first.second = second.second := by omega
  obtain ⟨hhour, hminute, hsecond⟩ := hclock
  cases first
  cases second
  rw [Calendar.mk.injEq]
  exact ⟨hmonth, hday, hhour, hminute, hsecond⟩

end Days

end Calendar

end TokenMint.Log
