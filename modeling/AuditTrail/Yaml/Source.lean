import AuditTrail.Fault

/-!
# The text of a document

Indentation carries meaning in YAML, so each character is kept with the line and the column in
which it stands.  Breaks are unified first: what is left of them are the line feed and the two
separators of Unicode, which stay themselves when lines are joined.
-/

namespace AuditTrail.Yaml

def isBreak (c : Char) : Bool := c = '\n' || c = '\u2028' || c = '\u2029'

def isBlank (c : Char) : Bool := c = ' ' || c = '\t'

def isGap (c : Char) : Bool := isBlank c || isBreak c

def isWord (c : Char) : Bool := c.isAlphanum || c = '_' || c = '-'

/-- Characters that may stand in a document.  Most control characters may not. -/
def isAllowed (c : Char) : Bool :=
  let n := c.toNat
  n = 0x09 || n = 0x0A || n = 0x0D || (0x20 ≤ n && n ≤ 0x7E) || n = 0x85 ||
    (0xA0 ≤ n && n ≤ 0xFFFD) || 0x10000 ≤ n

structure Spot where
  char : Char
  line : Nat
  column : Nat
deriving DecidableEq, Repr

/-- A byte order mark that begins a line. -/
def Spot.isByteOrderMark (x : Spot) : Bool := x.char = '\ufeff' && x.column = 0

abbrev Source := List Spot

namespace Source

def unifyBreaks : List Char → List Char
  | '\r' :: '\n' :: cs => '\n' :: unifyBreaks cs
  | c :: cs => (if c = '\r' ∨ c = '\u0085' then '\n' else c) :: unifyBreaks cs
  | [] => []

/-- Puts each character in its place, the first of them in the one given. -/
def place (line column : Nat) : List Char → Source
  | [] => []
  | c :: cs =>
    ⟨c, line, column⟩ ::
      if isBreak c then place (line + 1) 0 cs else place line (column + 1) cs

def ofChars (text : List Char) : Except YamlFault Source :=
  if text.all isAllowed then .ok (place 0 0 (unifyBreaks text)) else .error .forbiddenCharacter

def char? (s : Source) : Option Char := s.head?.map (·.char)

/-- Whether what comes before `s` is a whole word. -/
def endsWord (s : Source) : Bool := (char? s).all isGap

/-- Whether a line of the text begins here with three of the same sign, alone: the marks that
begin and end a document. -/
def atMark (sign : Char) : Source → Bool
  | a :: b :: c :: rest =>
    a.column = 0 && a.char = sign && b.char = sign && c.char = sign && endsWord rest
  | _ => false

def atDocumentMark (s : Source) : Bool := atMark '-' s || atMark '.' s

def span (p : Char → Bool) (s : Source) : List Char × Source :=
  ((s.takeWhile (p ·.char)).map (·.char), s.dropWhile (p ·.char))

def skipBlanks (s : Source) : Source := s.dropWhile (isBlank ·.char)

/-- Goes to the next line.  Only blanks and a comment may be left on this one. -/
def endLine (s : Source) : Except YamlFault Source :=
  let s := skipBlanks s
  let s := if char? s = some '#' then s.dropWhile (!isBreak ·.char) else s
  match s with
  | [] => .ok []
  | x :: rest =>
    if isBreak x.char then .ok rest else .error (.malformed "text after the end of a line")

theorem map_char_place (line column : Nat) (text : List Char) :
    (place line column text).map (·.char) = text := by
  induction text generalizing line column with
  | nil => rfl
  | cons c cs ih =>
    rw [place]
    split <;> simp [ih]

end Source
end AuditTrail.Yaml
