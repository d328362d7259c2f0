import AuditTrail.Json

/-!
# Writing JSON

`pretty` lays a value out on lines of its own, two blanks deeper for each container.  Empty
containers stay on one line.
-/

namespace AuditTrail.Json

def escapedLetters : List (Char × Char) :=
  [('"', '"'), ('\\', '\\'), ('\x08', 'b'), ('\t', 't'), ('\n', 'n'), ('\x0c', 'f'), ('\r', 'r')]

def escapeChar (c : Char) : List Char :=
  match escapedLetters.lookup c with
  | some letter => ['\\', letter]
  | none =>
    if c.toNat < 0x20 then
      ['\\', 'u', '0', '0', Nat.digitChar (c.toNat / 16), Nat.digitChar (c.toNat % 16)]
    else [c]

def writeString (s : String) : List Char := ['"'] ++ s.toList.flatMap escapeChar ++ ['"']

def newLine (level : Nat) : List Char := '\n' :: List.replicate (2 * level) ' '

/-- Puts the items of a container between its brackets, each on a line of its own. -/
def enclose (opening closing : Char) (level : Nat) (items : List (List Char)) : List Char :=
  if items.isEmpty then [opening, closing]
  else
    [opening] ++ newLine (level + 1) ++ (',' :: newLine (level + 1)).intercalate items ++
      newLine level ++ [closing]

mutual

def write (level : Nat) : Json → List Char
  | null => "null".toList
  | bool b => if b then "true".toList else "false".toList
  | integer n => (toString n).toList
  | decimal mantissa exponent => (toString mantissa).toList ++ 'e' :: (toString exponent).toList
  | string s => writeString s
  | array items => enclose '[' ']' level (writeItems (level + 1) items)
  | object members => enclose '\x7b' '\x7d' level (writeMembers (level + 1) members)

def writeItems (level : Nat) : List Json → List (List Char)
  | [] => []
  | item :: rest => write level item :: writeItems level rest

def writeMembers (level : Nat) : List (String × Json) → List (List Char)
  | [] => []
  | (key, value) :: rest =>
    (writeString key ++ [':', ' '] ++ write level value) :: writeMembers level rest

end

def pretty (value : Json) : String := String.ofList (write 0 value)

end AuditTrail.Json
