/-!
# Instructions of a log format

A log format is a sequence of literal text, fields `${NAME}` and conditional blocks
`{?prefix${NAME}suffix?}`.  `written` gives the text of an instruction, and the text of a whole
format is the texts of its instructions one after another.
-/

namespace AuditTrail.Template

inductive Instruction where
  | literal (text : List Char)
  | field (name : List Char)
  /-- `before`, the value of the field and `after`, present only when the value is. -/
  | conditional (before name after : List Char)
deriving DecidableEq, Repr

namespace Instruction

def fieldOpen : List Char := ['$', '{']

def fieldClose : List Char := ['}']

def blockOpen : List Char := ['{', '?']

def blockClose : List Char := ['?', '}']

def written : Instruction → List Char
  | literal text => text
  | field name => fieldOpen ++ name ++ fieldClose
  | conditional before name after =>
    blockOpen ++ before ++ fieldOpen ++ name ++ fieldClose ++ after ++ blockClose

def writtenAll (is : List Instruction) : List Char := is.flatMap written

def name? : Instruction → Option (List Char)
  | literal _ => none
  | field name => some name
  | conditional _ name _ => some name

/-- How many values an instruction inserts: the parts of a conditional block come and go by
themselves. -/
def slotCount : Instruction → Nat
  | literal _ => 0
  | field _ => 1
  | conditional _ _ _ => 3

end Instruction
end AuditTrail.Template
