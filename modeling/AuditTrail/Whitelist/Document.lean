import AuditTrail.Json.Printer
import AuditTrail.Json.Reader
import AuditTrail.Role
import AuditTrail.Whitelist

/-!
# Stored whitelists

A whitelist is stored as an object from paths to lists of permission names, and the whitelists of
all roles as an object from role names to such objects.  Paths are read as a person writes them,
so two keys of a document may name one resource; the later of them counts.
-/

namespace AuditTrail

namespace Permission

/-- A name, or the name as the only key of an object whose value is null. -/
def ofJson : Json → Except DocumentFault Permission
  | .string name => named name
  | .object [(name, value)] => do
    let p ← named name
    match value with
    | .null => .ok p
    | other => .error (.unexpected other.describe "unit")
  | .object _ => .error (.stated "invalid value: map, expected map with a single key")
  | other => .error (.unexpected other.describe "string or map")
where
  named (name : String) : Except DocumentFault Permission :=
    match ofName? name with
    | some p => .ok p
    | none => .error (.unknownPermission name)

end Permission

namespace PermissionSet

def ofJson : Json → Except DocumentFault PermissionSet
  | .array items => do return ofList (← items.mapM Permission.ofJson)
  | other => .error (.unexpected other.describe "a sequence")

def toJson (s : PermissionSet) : Json := .array (s.toList.map fun p => .string p.name)

end PermissionSet

namespace Whitelist

/-- Reads one member of the object and puts it in the place of any earlier one for its resource. -/
def addMember (w : Whitelist) (member : String × Json) : Except DocumentFault Whitelist :=
  match Resource.parse? member.1 with
  | none => .error (.invalidResource member.1)
  | some r => do return ⟨w.entries.insert r (← PermissionSet.ofJson member.2)⟩

def ofJson : Json → Except DocumentFault Whitelist
  | .object members => members.foldlM addMember empty
  | other => .error (.unexpected other.describe "a map")

def toJson (w : Whitelist) : Json :=
  .object (w.entries.toList.map fun (r, set) => (r.path, set.toJson))

def ofText (text : String) : Except DocumentFault Whitelist := do ofJson (← Json.parse text)

end Whitelist

abbrev WhitelistTable := Std.ExtTreeMap Role Whitelist

namespace WhitelistTable

def addMember (t : WhitelistTable) (member : String × Json) :
    Except DocumentFault WhitelistTable := do
  return t.insert ⟨member.1⟩ (← Whitelist.ofJson member.2)

def ofJson : Json → Except DocumentFault WhitelistTable
  | .object members => members.foldlM addMember ∅
  | other => .error (.unexpected other.describe "a map")

def toJson (t : WhitelistTable) : Json :=
  .object (t.toList.map fun (role, w) => (role.name, w.toJson))

def ofText (text : String) : Except DocumentFault WhitelistTable := do ofJson (← Json.parse text)

/-- The text of a document.  Its entries may stand in any order.  Here roles and resources stand in
that of their names and paths, so that a table has one text.  The order shows only where several
resources of a whitelist have the same normal one: of these it decides which is the last, and the
last is the one that is read back. -/
def toText (t : WhitelistTable) : String := t.toJson.pretty

end WhitelistTable
end AuditTrail
