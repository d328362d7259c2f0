/-!
# Dates

Days are counted from 1970-01-01, and a date of the proleptic Gregorian calendar is computed from
the count.  Weeks and week years come from the weekday and the day of the year.
-/

namespace AuditTrail.Time

structure Date where
  year : Int
  month : Nat
  day : Nat
deriving DecidableEq, Repr

namespace Date

/-- Days from 0000-03-01 to 1970-01-01.  Years that begin in March put the leap day last. -/
def epochShift : Int := 719468

def daysPerEra : Int := 146097

def ofDays (days : Int) : Date :=
  let shifted := days + epochShift
  let era := shifted.fdiv daysPerEra
  let dayOfEra := shifted.fmod daysPerEra
  let yearOfEra := (dayOfEra - dayOfEra / 1460 + dayOfEra / 36524 - dayOfEra / 146096) / 365
  let dayOfYear := dayOfEra - (365 * yearOfEra + yearOfEra / 4 - yearOfEra / 100)
  let monthFromMarch := (5 * dayOfYear + 2) / 153
  let day := dayOfYear - (153 * monthFromMarch + 2) / 5 + 1
  let month := if monthFromMarch < 10 then monthFromMarch + 3 else monthFromMarch - 9
  let year := yearOfEra + era * 400 + if month ≤ 2 then 1 else 0
  ⟨year, month.toNat, day.toNat⟩

def toDays (d : Date) : Int :=
  let year := if d.month ≤ 2 then d.year - 1 else d.year
  let era := year.fdiv 400
  let yearOfEra := year.fmod 400
  let monthFromMarch : Int := if 2 < d.month then d.month - 3 else d.month + 9
  let dayOfYear := (153 * monthFromMarch + 2) / 5 + d.day - 1
  let dayOfEra := yearOfEra * 365 + yearOfEra / 4 - yearOfEra / 100 + dayOfYear
  era * daysPerEra + dayOfEra - epochShift

end Date

/-- Days since Sunday, from 0 to 6.  Day 0 of the count is a Thursday. -/
def weekday (days : Int) : Nat := ((days + 4).fmod 7).toNat

def weekdayFromMonday (days : Int) : Nat := ((days + 3).fmod 7).toNat

def dayOfYear (days : Int) : Nat := (days - Date.toDays ⟨(Date.ofDays days).year, 1, 1⟩).toNat

def weekFromSunday (days : Int) : Nat := (dayOfYear days + 7 - weekday days) / 7

def weekFromMonday (days : Int) : Nat := (dayOfYear days + 7 - weekdayFromMonday days) / 7

/-- The Thursday of the same week.  A week belongs to the year that holds its Thursday. -/
def thursdayOf (days : Int) : Int := days - weekdayFromMonday days + 3

def weekYear (days : Int) : Int := (Date.ofDays (thursdayOf days)).year

def weekOfWeekYear (days : Int) : Nat := dayOfYear (thursdayOf days) / 7 + 1

def monthNames : List String :=
  ["January", "February", "March", "April", "May", "June", "July", "August", "September",
   "October", "November", "December"]

def weekdayNames : List String :=
  ["Sunday", "Monday", "Tuesday", "Wednesday", "Thursday", "Friday", "Saturday"]

end AuditTrail.Time
