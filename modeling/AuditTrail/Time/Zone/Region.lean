import AuditTrail.Time.Calendar

/-!
# Regions

A region keeps a standard offset and may move its clocks forward for a season of each year.  The
table holds the regions known by name, with the rules that have been in force in recent years.
-/

namespace AuditTrail.Time

inductive Sunday where
  /-- The first one is number 0. -/
  | nth (n : Nat)
  | last
deriving DecidableEq, Repr

/-- A change of clocks: the day, and the instant in seconds after the midnight, by Greenwich time,
that begins that day. -/
structure Change where
  month : Nat
  sunday : Sunday
  seconds : Int
deriving DecidableEq, Repr

namespace Change

def day (c : Change) (year : Int) : Int :=
  match c.sunday with
  | .nth n =>
    let first := Date.toDays ⟨year, c.month, 1⟩
    first + ((7 - weekday first) % 7 + 7 * n : Nat)
  | .last =>
    let after := Date.toDays (if c.month = 12 then ⟨year + 1, 1, 1⟩ else ⟨year, c.month + 1, 1⟩)
    after - 1 - weekday (after - 1)

def instant (c : Change) (year : Int) : Int := c.day year * 86400 + c.seconds

end Change

/-- A name for an offset, in seconds east of Greenwich. -/
structure Clock where
  abbreviation : String
  offset : Int
deriving DecidableEq, Repr

/-- The part of a year during which clocks are ahead.  South of the equator it ends before it
begins. -/
structure Season where
  clock : Clock
  begins : Change
  ends : Change
deriving DecidableEq, Repr

structure Region where
  id : String
  standard : Clock
  season : Option Season
deriving DecidableEq, Repr

namespace Region

/-- The clock in use at an instant, which is given in seconds since the epoch. -/
def clockAt (r : Region) (instant : Int) : Clock :=
  match r.season with
  | none => r.standard
  | some s =>
    let year := (Date.ofDays (instant.fdiv 86400)).year
    let begins := s.begins.instant year
    let ends := s.ends.instant year
    let ahead :=
      if begins < ends then begins ≤ instant ∧ instant < ends
      else begins ≤ instant ∨ instant < ends
    if ahead then s.clock else r.standard

def hours (n : Int) : Int := n * 3600

/-- Clocks change at one in the morning by Greenwich time, on the last Sundays of March and
October. -/
def europeanSeason (clock : Clock) : Season :=
  ⟨clock, ⟨3, .last, hours 1⟩, ⟨10, .last, hours 1⟩⟩

/-- Clocks change at two in the morning by the clock in use, on the second Sunday of March and the
first of November. -/
def americanSeason (standard clock : Clock) : Season :=
  ⟨clock, ⟨3, .nth 1, hours 2 - standard.offset⟩, ⟨11, .nth 0, hours 2 - clock.offset⟩⟩

def fixed (id abbreviation : String) (offset : Int) : Region := ⟨id, ⟨abbreviation, offset⟩, none⟩

def american (id : String) (standard clock : Clock) : Region :=
  ⟨id, standard, some (americanSeason standard clock)⟩

def eastern (id : String) : Region := american id ⟨"EST", hours (-5)⟩ ⟨"EDT", hours (-4)⟩

def all : List Region :=
  [⟨"Europe/Stockholm", ⟨"CET", hours 1⟩, some (europeanSeason ⟨"CEST", hours 2⟩)⟩,
   ⟨"Europe/London", ⟨"GMT", 0⟩, some (europeanSeason ⟨"BST", hours 1⟩)⟩,
   eastern "America/New_York",
   eastern "US/Eastern",
   american "America/St_Johns" ⟨"NST", -(hours 3 + 1800)⟩ ⟨"NDT", -(hours 2 + 1800)⟩,
   ⟨"Australia/Sydney", ⟨"AEST", hours 10⟩,
    some ⟨⟨"AEDT", hours 11⟩, ⟨10, .nth 0, hours 2 - hours 10⟩, ⟨4, .nth 0, hours 3 - hours 11⟩⟩⟩,
   fixed "Asia/Kolkata" "IST" (hours 5 + 1800),
   fixed "Asia/Kathmandu" "+0545" (hours 5 + 2700),
   fixed "Asia/Tokyo" "JST" (hours 9),
   fixed "Etc/GMT+5" "-05" (hours (-5)),
   fixed "Etc/GMT-14" "+14" (hours 14),
   fixed "EST" "EST" (hours (-5)),
   fixed "GMT0" "GMT" 0,
   fixed "UCT" "UTC" 0]

def find? (regions : List Region) (id : String) : Option Region := regions.find? (·.id == id)

end Region
end AuditTrail.Time
