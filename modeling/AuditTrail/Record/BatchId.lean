import AuditTrail.Text.Digits

/-!
# Batch ids

A batch id is written as five groups of hexadecimal digits joined by hyphens.  Either letter case is
read, and the lower case is written.
-/

namespace AuditTrail

structure BatchId where
  text : String
deriving DecidableEq, Repr

namespace BatchId

def groupLengths : List Nat := [8, 4, 4, 4, 12]

def isHexDigit (c : Char) : Bool := (Text.digit? 16 c).isSome

def parse? (text : String) : Option BatchId :=
  let groups := text.toList.splitOn '-'
  if groups.map (·.length) = groupLengths ∧ groups.all (·.all isHexDigit) then
    some ⟨String.ofList (text.toList.map Char.toLower)⟩
  else none

end BatchId
end AuditTrail
