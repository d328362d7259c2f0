import AuditTrail.Text.Digits
import AuditTrail.Text.Search

/-!
# Client addresses

Reads and writes the textual forms of network addresses.  An address of the first kind is four
decimal numbers without leading zeros.  One of the second kind is eight groups of up to four
hexadecimal digits; `::` stands once for groups of zeros, and the last two groups may be written
as an address of the first kind.
-/

namespace AuditTrail

/-- Four octets or eight groups. -/
inductive Address where
  | v4 (octets : Vector UInt8 4)
  | v6 (groups : Vector UInt16 8)
deriving DecidableEq, Repr

namespace Address

open Text

def octet? (s : List Char) : Option UInt8 := do
  let n ← number? 10 s
  if 256 ≤ n ∨ (s.head? = some '0' ∧ 1 < s.length) then none else some (UInt8.ofNat n)

def v4Octets? (s : List Char) : Option (Vector UInt8 4) := do
  match s.splitOn '.' with
  | [a, b, c, d] => some #v[← octet? a, ← octet? b, ← octet? c, ← octet? d]
  | _ => none

def group? (s : List Char) : Option UInt16 := do
  let n ← number? 16 s
  if 4 < s.length then none else some (UInt16.ofNat n)

def pair (high low : UInt8) : UInt16 := UInt16.ofNat (high.toNat * 256 + low.toNat)

/-- Groups separated by colons.  An address of the first kind may stand for the last two. -/
def groups? (s : List Char) : Option (List UInt16) :=
  match s with
  | [] => some []
  | _ => do
    let pieces := s.splitOn ':'
    let front ← pieces.dropLast.mapM group?
    let last := pieces.getLast?.getD []
    match v4Octets? last with
    | some o => some (front ++ [pair o[0] o[1], pair o[2] o[3]])
    | none => some (front ++ [← group? last])

/-- As `groups?`, without the other kind of address at the end. -/
def plainGroups? (s : List Char) : Option (List UInt16) :=
  match s with
  | [] => some []
  | _ => (s.splitOn ':').mapM group?

def v6OfList? (groups : List UInt16) : Option (Vector UInt16 8) :=
  if h : groups.toArray.size = 8 then some ⟨groups.toArray, h⟩ else none

def v6Groups? (s : List Char) : Option (Vector UInt16 8) := do
  match cut? [':', ':'] s with
  | none => v6OfList? (← groups? s)
  | some (before, after) =>
    let front ← plainGroups? before
    let back ← groups? after
    let given := front.length + back.length
    if given < 8 then v6OfList? (front ++ List.replicate (8 - given) 0 ++ back) else none

def parse? (text : String) : Option Address :=
  match v4Octets? text.toList with
  | some octets => some (v4 octets)
  | none => (v6Groups? text.toList).map v6

def writeV4 (octets : Vector UInt8 4) : String :=
  ".".intercalate (octets.toList.map fun o => toString o.toNat)

def writeGroup (g : UInt16) : String := String.ofList (Nat.toDigits 16 g.toNat)

def writeGroups (groups : List UInt16) : String := ":".intercalate (groups.map writeGroup)

/-- Length of the run of zeros that begins the list. -/
def zeroRun (groups : List UInt16) : Nat := (groups.takeWhile (· == 0)).length

/-- Start and length of the longest run of zeros, the first one among equals. -/
def longestZeroRun (groups : List UInt16) : Nat × Nat :=
  (List.range groups.length).foldl (fun best start =>
    let length := zeroRun (groups.drop start)
    if best.2 < length then (start, length) else best) (0, 0)

/-- The octets of an address of the first kind that is carried in `::ffff:0:0`. -/
def mapped? (groups : List UInt16) : Option (Vector UInt8 4) :=
  match groups with
  | [0, 0, 0, 0, 0, 0xffff, high, low] =>
    let octet (n : Nat) := UInt8.ofNat (n % 256)
    some #v[octet (high.toNat / 256), octet high.toNat, octet (low.toNat / 256), octet low.toNat]
  | _ => none

def writeV6 (groups : List UInt16) : String :=
  match mapped? groups with
  | some octets => "::ffff:" ++ writeV4 octets
  | none =>
    let (start, length) := longestZeroRun groups
    if length < 2 then writeGroups groups
    else writeGroups (groups.take start) ++ "::" ++ writeGroups (groups.drop (start + length))

def write : Address → String
  | v4 octets => writeV4 octets
  | v6 groups => writeV6 groups.toList

end Address
end AuditTrail
