import AuditTrail.Failure
import AuditTrail.Text.Blank
import AuditTrail.Text.Digits
import AuditTrail.Text.Search
import AuditTrail.Time.Zone.Region

/-!
# Time zones

`Zone.parse` reads the id of a zone: a keyword, an offset from Greenwich with or without one of the
words `UTC` and `GMT` before it, or the exact name of a region.  The regions are those of
`Region.all` unless others are given.
-/

namespace AuditTrail.Time

inductive Zone where
  | utc
  | system
  | fixed (seconds : Int)
  | region (region : Region)
deriving DecidableEq, Repr

namespace Zone

open Text

/-- No offset has more hours than this. -/
def maxOffsetHours : Nat := 18

def utcWords : List String := ["UTC", "GMT", "UT", "Z", "ETC/UTC", "ETC/GMT"]

def systemWords : List String := ["LOCAL", "SYSTEM"]

def byteLength (s : List Char) : Nat := s.foldr (fun c n => c.utf8Size + n) 0

/-- Splits a text after its first `n` bytes; `none` when that is inside a character. -/
def cutAfterBytes? : Nat → List Char → Option (List Char × List Char)
  | 0, s => some ([], s)
  | _, [] => none
  | n, c :: cs =>
    if c.utf8Size ≤ n then
      (cutAfterBytes? (n - c.utf8Size) cs).map fun (before, after) => (c :: before, after)
    else none

/-- The hours and the minutes of an offset.  A colon separates them; without one the first two bytes
are the hours, and a text no longer than that has no minutes. -/
def splitOffset (digits : List Char) : Build (List Char × List Char) :=
  match cut? [':'] digits with
  | some halves => .ok halves
  | none =>
    if byteLength digits ≤ 2 then .ok (digits, ['0'])
    else
      match cutAfterBytes? 2 digits with
      | some halves => .ok halves
      | none => .crash .offsetCutInsideCharacter

/-- Seconds of an offset whose sign has been read. -/
def offsetSeconds? (sign : Int) (hours minutes : List Char) : Option Int := do
  let h ← number? 10 hours
  let m ← number? 10 minutes
  if maxOffsetHours < h ∨ 60 ≤ m then none else some (sign * (h * 3600 + m * 60))

def offset? (s : List Char) : Build (Option Int) :=
  let signed (sign : Int) (digits : List Char) : Build (Option Int) := do
    let (hours, minutes) ← splitOffset digits
    return offsetSeconds? sign hours minutes
  match s with
  | '+' :: digits => signed 1 digits
  | '-' :: digits => signed (-1) digits
  | _ => return none

/-- Takes one of the two words off the front. -/
def dropWord (s : List Char) : List Char :=
  if "UTC".toList.isPrefixOf s ∨ "GMT".toList.isPrefixOf s then s.drop 3 else s

def parse (text : String) (regions : List Region := Region.all) : Build Zone := do
  let id := trim text.toList
  let upper := id.map Char.toUpper
  if utcWords.any (·.toList == upper) then return utc
  else if systemWords.any (·.toList == upper) then return system
  else
    match ← offset? (dropWord upper) with
    | some seconds => return fixed seconds
    | none =>
      match Region.find? regions (String.ofList id) with
      | some r => return region r
      | none => .refuse (.invalidTimeZone (String.ofList id))

end Zone
end AuditTrail.Time
