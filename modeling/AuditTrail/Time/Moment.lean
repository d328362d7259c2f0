import AuditTrail.Time.Pattern
import AuditTrail.Time.Zone

/-!
# Writing an instant by a pattern

A `Moment` is an instant together with the clock that a zone shows at it.  `write?` gives the text
of a pattern at a moment, item by item.
-/

namespace AuditTrail.Time

structure Moment where
  instant : Int
  millisecond : Nat
  clock : Clock
deriving DecidableEq, Repr

namespace Moment

def twoDigits (n : Nat) : List Char := [Nat.digitChar (n / 10 % 10), Nat.digitChar (n % 10)]

def digits (n : Nat) : List Char := Nat.toDigits 10 n

def leftPad (filler : Char) (width : Nat) (s : List Char) : List Char :=
  List.replicate (width - s.length) filler ++ s

def pad (padding : Padding) (width : Nat) (s : List Char) : List Char :=
  match padding with
  | .zeros => leftPad '0' width s
  | .spaces => leftPad ' ' width s
  | .none => s

def sign (n : Int) : Char := if n < 0 then '-' else '+'

def writeOffset (form : OffsetForm) (offset : Int) : List Char :=
  let seconds := offset.natAbs
  let colon (present : Bool) : List Char := if present then [':'] else []
  let parts : List Char :=
    match form with
    | .hours => twoDigits (seconds / 3600)
    | .minutes present =>
      let minutes := (seconds + 30) / 60
      twoDigits (minutes / 60) ++ colon present ++ twoDigits (minutes % 60)
    | .seconds =>
      twoDigits (seconds / 3600) ++ [':'] ++ twoDigits (seconds / 60 % 60) ++ [':'] ++
        twoDigits (seconds % 60)
  sign offset :: parts

/-- A clock that has no name is named by its offset. -/
def namelessClock (offset : Int) : Clock :=
  let form := if offset.natAbs % 60 = 0 then .minutes true else .seconds
  ⟨String.ofList (writeOffset form offset), offset⟩

/-- The clock that a zone shows.  The host's own zone is the one of Greenwich. -/
def clockIn (zone : Zone) (instant : Int) : Clock :=
  match zone with
  | .utc => ⟨"UTC", 0⟩
  | .system => namelessClock 0
  | .fixed seconds => namelessClock seconds
  | .region r => r.clockAt instant

/-- The last millisecond that can be written in every zone. -/
def lastMillisecond : Nat := 8210266876799999

def ofMillis? (zone : Zone) (millis : Nat) : Option Moment :=
  if millis ≤ lastMillisecond then
    let instant : Int := millis / 1000
    some ⟨instant, millis % 1000, clockIn zone instant⟩
  else none

def localSeconds (m : Moment) : Int := m.instant + m.clock.offset

def days (m : Moment) : Int := m.localSeconds.fdiv 86400

def secondOfDay (m : Moment) : Nat := (m.localSeconds.fmod 86400).toNat

def hour (m : Moment) : Nat := m.secondOfDay / 3600

def hourOfHalfDay (m : Moment) : Nat := if m.hour % 12 = 0 then 12 else m.hour % 12

/-- A year of four digits, or of more with a sign before them. -/
def writeYear (padding : Padding) (year : Int) : List Char :=
  if 9999 < year then '+' :: digits year.toNat else pad padding 4 (digits year.toNat)

/-- The century counts modulo 256, and its tens are written as one character, that many places after
`0`. -/
def writeCentury (padding : Padding) (year : Int) : List Char :=
  let century := (year.fdiv 100).toNat % 256
  let tens : List Char :=
    match century / 10, padding with
    | 0, .none => []
    | 0, .spaces => [' ']
    | n, _ => [Char.ofNat ('0'.toNat + n)]
  tens ++ [Nat.digitChar (century % 10)]

def writeQuantity (m : Moment) (q : Quantity) (padding : Padding) : List Char :=
  let date := Date.ofDays m.days
  let two (n : Nat) : List Char := pad padding 2 (digits n)
  match q with
  | .year => writeYear padding date.year
  | .century => writeCentury padding date.year
  | .yearOfCentury => two (date.year.fmod 100).toNat
  | .quarter => digits ((date.month + 2) / 3)
  | .month => two date.month
  | .day => two date.day
  | .weekFromSunday => two (weekFromSunday m.days)
  | .weekFromMonday => two (weekFromMonday m.days)
  | .weekYear => writeYear padding (weekYear m.days)
  | .weekYearOfCentury => two ((weekYear m.days).fmod 100).toNat
  | .week => two (weekOfWeekYear m.days)
  | .weekdayFromSunday => digits (weekday m.days)
  | .weekdayFromMonday => digits (weekdayFromMonday m.days + 1)
  | .dayOfYear => pad padding 3 (digits (dayOfYear m.days + 1))
  | .hour => two m.hour
  | .hourOfHalfDay => two m.hourOfHalfDay
  | .minute => two (m.secondOfDay / 60 % 60)
  | .second => two (m.secondOfDay % 60)
  | .nanosecond => pad padding 9 (digits (m.millisecond * 1000000))
  | .unixSeconds => pad padding 9 (digits m.instant.toNat)

def nameOf (full : Bool) (names : List String) (i : Nat) : List Char :=
  let name := (names.getD i "").toList
  if full then name else name.take 3

/-- The first digits of the fraction of a second, of which three can be other than zero. -/
def writeFraction (m : Moment) (count : Nat) : List Char :=
  (leftPad '0' 3 (digits m.millisecond) ++ List.replicate 6 '0').take count

def writeItem? (m : Moment) : Item → Option (List Char)
  | .literal text => some text
  | .quantity q padding => some (m.writeQuantity q padding)
  | .monthName full => some (nameOf full monthNames ((Date.ofDays m.days).month - 1))
  | .weekdayName full => some (nameOf full weekdayNames (weekday m.days))
  | .halfDay upper =>
    some (match decide (m.hour < 12), upper with
      | true, true => ['A', 'M']
      | true, false => ['a', 'm']
      | false, true => ['P', 'M']
      | false, false => ['p', 'm'])
  | .fraction => some (if m.millisecond = 0 then [] else '.' :: m.writeFraction 3)
  | .fractionDigits count dot => some ((if dot then ['.'] else []) ++ m.writeFraction count)
  | .zoneName => some m.clock.abbreviation.toList
  | .offset form => some (writeOffset form m.clock.offset)
  | .unwritable => none

/-- The text of a pattern; `none` when one of its items cannot be written. -/
def write? (m : Moment) (items : List Item) : Option (List Char) :=
  (items.mapM m.writeItem?).map List.flatten

end Moment
end AuditTrail.Time
