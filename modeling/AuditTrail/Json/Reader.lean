import AuditTrail.Fault
import AuditTrail.Json.Number
import AuditTrail.Text.Digits

/-!
# Reading JSON

Each reader takes what it recognises off the front of a text and returns the rest.  The grammar is
the strict one: no comments, no commas before a closing bracket, no control characters inside
strings, and no halves of surrogate pairs.
-/

namespace AuditTrail.Json

abbrev Reader (α : Type) := List Char → Option (α × List Char)

def isBlank (c : Char) : Bool := c = ' ' || c = '\n' || c = '\r' || c = '\t'

def skipBlanks (s : List Char) : List Char := s.dropWhile isBlank

def readUnit : Reader Nat
  | a :: b :: c :: d :: rest => (Text.number? 16 [a, b, c, d]).map fun unit => (unit, rest)
  | _ => none

/-- The character that one escaped unit, or a pair of them, stands for. -/
def readEscapedUnit : Reader Char := fun s => do
  let (high, rest) ← readUnit s
  if 0xD800 ≤ high ∧ high < 0xDC00 then
    match rest with
    | '\\' :: 'u' :: rest =>
      let (low, rest) ← readUnit rest
      if 0xDC00 ≤ low ∧ low < 0xE000 then
        some (Char.ofNat ((high - 0xD800) * 0x400 + (low - 0xDC00) + 0x10000), rest)
      else none
    | _ => none
  else if 0xDC00 ≤ high ∧ high < 0xE000 then none
  else some (Char.ofNat high, rest)

def shortEscapes : List (Char × Char) :=
  [('"', '"'), ('\\', '\\'), ('/', '/'), ('b', '\x08'), ('f', '\x0c'), ('n', '\n'), ('r', '\r'),
   ('t', '\t')]

/-- The rest of a string, up to its closing quote.  The number bounds the characters read. -/
def readStringBody : Nat → Reader (List Char)
  | 0, _ => none
  | _ + 1, [] => none
  | fuel + 1, c :: cs =>
    if c = '"' then some ([], cs)
    else if c = '\\' then
      match cs with
      | 'u' :: cs => do
        let (c, rest) ← readEscapedUnit cs
        let (text, rest) ← readStringBody fuel rest
        some (c :: text, rest)
      | e :: cs => do
        let c ← shortEscapes.lookup e
        let (text, rest) ← readStringBody fuel cs
        some (c :: text, rest)
      | [] => none
    else if c.toNat < 0x20 then none
    else do
      let (text, rest) ← readStringBody fuel cs
      some (c :: text, rest)

def readString : Reader String
  | '"' :: cs =>
    (readStringBody (cs.length + 1) cs).map fun (text, rest) => (String.ofList text, rest)
  | _ => none

/-- Digits of a whole number, which begin with zero only when there is no other. -/
def readWhole : Reader (List Char) := fun s =>
  match s with
  | '0' :: rest => if (rest.head?.map Char.isDigit).getD false then none else some (['0'], rest)
  | _ =>
    let digits := s.takeWhile Char.isDigit
    if digits.isEmpty then none else some (digits, s.dropWhile Char.isDigit)

def readDigits : Reader (List Char) := fun s =>
  let digits := s.takeWhile Char.isDigit
  if digits.isEmpty then none else some (digits, s.dropWhile Char.isDigit)

def readFraction : Reader (Option (List Char))
  | '.' :: rest => (readDigits rest).map fun (digits, rest) => (some digits, rest)
  | s => some (none, s)

def exponentValue (digits : List Char) : Nat := digits.foldl (fun n c => n * 10 + digitValue c) 0

def readExponent : Reader (Option Int) := fun s =>
  let signed (sign : Int) (s : List Char) : Option (Option Int × List Char) :=
    (readDigits s).map fun (digits, rest) => (some (sign * exponentValue digits), rest)
  match s with
  | c :: rest =>
    if c = 'e' ∨ c = 'E' then
      match rest with
      | '+' :: rest => signed 1 rest
      | '-' :: rest => signed (-1) rest
      | _ => signed 1 rest
    else some (none, s)
  | [] => some (none, s)

def readNumber : Reader Json := fun s => do
  let (negative, s) := match s with
    | '-' :: rest => (true, rest)
    | _ => (false, s)
  let (whole, s) ← readWhole s
  let (fraction, s) ← readFraction s
  let (exponent, s) ← readExponent s
  return (← number? negative whole fraction exponent, s)

/-- Items separated by commas, up to the closing bracket.  The number bounds how many there are. -/
def readItems {α : Type} (item : Reader α) (close : Char) : Nat → Reader (List α)
  | 0, _ => none
  | fuel + 1, s => do
    let (a, rest) ← item s
    match skipBlanks rest with
    | c :: rest =>
      if c = ',' then do
        let (as, rest) ← readItems item close fuel rest
        some (a :: as, rest)
      else if c = close then some ([a], rest)
      else none
    | [] => none

def readEnclosed {α : Type} (item : Reader α) (close : Char) : Reader (List α) := fun s =>
  match skipBlanks s with
  | c :: rest => if c = close then some ([], rest) else readItems item close s.length s
  | [] => none

def readMember (value : Reader Json) : Reader (String × Json) := fun s => do
  let (key, rest) ← readString (skipBlanks s)
  match skipBlanks rest with
  | ':' :: rest =>
    let (v, rest) ← value rest
    some ((key, v), rest)
  | _ => none

/-- A value in which containers are nested at most as deep as the number says. -/
def readValue : Nat → Reader Json := fun depth s =>
  match skipBlanks s with
  | 'n' :: 'u' :: 'l' :: 'l' :: rest => some (.null, rest)
  | 't' :: 'r' :: 'u' :: 'e' :: rest => some (.bool true, rest)
  | 'f' :: 'a' :: 'l' :: 's' :: 'e' :: rest => some (.bool false, rest)
  | '"' :: rest => (readString ('"' :: rest)).map fun (text, rest) => (.string text, rest)
  | '[' :: rest =>
    match depth with
    | 0 => none
    | depth + 1 =>
      (readEnclosed (readValue depth) ']' rest).map fun (items, rest) => (.array items, rest)
  | '\x7b' :: rest =>
    match depth with
    | 0 => none
    | depth + 1 =>
      (readEnclosed (readMember (readValue depth)) '\x7d' rest).map fun (members, rest) =>
        (.object members, rest)
  | s => readNumber s

/-- The deepest nesting of containers that is read. -/
def maxDepth : Nat := 127

/-- A document holds one value and nothing else. -/
def parse (text : String) : Except DocumentFault Json :=
  match readValue maxDepth text.toList with
  | some (value, rest) => if (skipBlanks rest).isEmpty then .ok value else .error .malformed
  | none => .error .malformed

end AuditTrail.Json
