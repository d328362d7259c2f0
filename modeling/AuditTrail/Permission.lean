import AuditTrail.Error
import AuditTrail.Text.Blank

/-!
# Permissions

The vocabulary of operations that a record may require and a whitelist may exempt.  The order of
`Permission.all` is the order in which every answer lists them.
-/

namespace AuditTrail

inductive Permission where
  | create
  | alter
  | drop
  | select
  | modify
  | authorize
  | describe
  | execute
deriving DecidableEq, Repr

namespace Permission

def all : List Permission := [create, alter, drop, select, modify, authorize, describe, execute]

def name : Permission → String
  | create => "CREATE"
  | alter => "ALTER"
  | drop => "DROP"
  | select => "SELECT"
  | modify => "MODIFY"
  | authorize => "AUTHORIZE"
  | describe => "DESCRIBE"
  | execute => "EXECUTE"

def index : Permission → Nat
  | create => 0
  | alter => 1
  | drop => 2
  | select => 3
  | modify => 4
  | authorize => 5
  | describe => 6
  | execute => 7

/-- The permission written exactly as `name` writes it, as stored documents do. -/
def ofName? (text : String) : Option Permission := all.find? (·.name == text)

/-- Reads a name that a person typed: surrounding white space and ASCII letter case do not count. -/
def parse (text : String) : Except Error Permission :=
  let typed := (Text.trim text.toList).map Char.toUpper
  match all.find? fun p => p.name.toList == typed with
  | some p => .ok p
  | none => .error (.config (.unknownPermission text))

def parseAll (texts : List String) : Except Error (List Permission) := texts.mapM parse

theorem mem_all (p : Permission) : p ∈ all := by cases p <;> decide

theorem ofName?_name (p : Permission) : ofName? p.name = some p := by cases p <;> decide

end Permission
end AuditTrail
