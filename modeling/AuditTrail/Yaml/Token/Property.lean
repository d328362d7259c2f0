import AuditTrail.Text.Digits
import AuditTrail.Yaml.Source
import AuditTrail.Yaml.Token

/-!
# Anchors, tags and directives

The tokens that say something about a node or about the document, rather than make a part of it.
-/

namespace AuditTrail.Yaml.Token

def endsName (c : Char) : Bool := ['?', ':', ',', ']', '\x7d', '%', '@', '\u0060'].contains c

def readName (s : Source) : Except YamlFault (String × Source) :=
  let (name, rest) := s.span isWord
  if name.isEmpty || !(rest.char?.all fun c => isGap c || endsName c) then
    .error (.malformed "a bad name of an anchor")
  else .ok (String.ofList name, rest)

/-- Characters of tags.  Between angle brackets there may be more of them. -/
def isTagChar (verbatim : Bool) (c : Char) : Bool :=
  isWord c || ";/?:@&=+$.!~*'()".toList.contains c || (verbatim && [',', '[', ']'].contains c)

/-- Reads a byte that is written with a percent sign and two digits. -/
def readEscapedByte : Source → Option (UInt8 × Source)
  | p :: a :: b :: rest =>
    match p.char, Text.digit? 16 a.char, Text.digit? 16 b.char with
    | '%', some high, some low => some (UInt8.ofNat (high * 16 + low), rest)
    | _, _, _ => none
  | _ => none

/-- How many bytes a character has that begins with this one. -/
def width? (first : UInt8) : Option Nat :=
  if first < 0x80 then some 1
  else if first < 0xC0 then none
  else if first < 0xE0 then some 2
  else if first < 0xF0 then some 3
  else if first < 0xF8 then some 4
  else none

/-- Reads the bytes of a character after its first. -/
def readFurtherBytes : Nat → Source → Option (List UInt8 × Source)
  | 0, s => some ([], s)
  | n + 1, s => do
    let (byte, rest) ← readEscapedByte s
    if 0x80 ≤ byte ∧ byte < 0xC0 then
      let (more, rest) ← readFurtherBytes n rest
      return (byte :: more, rest)
    else none

/-- Reads a character of which each byte is escaped.  Its bytes have the right form, but need not
be those of a character that exists. -/
def readEscapedChar (s : Source) : Option (List UInt8 × Source) := do
  let (first, rest) ← readEscapedByte s
  let (more, rest) ← readFurtherBytes ((← width? first) - 1) rest
  return (first :: more, rest)

def byteOf (c : Char) : UInt8 := UInt8.ofNat c.toNat

/-- Reads the characters of a tag.  The number bounds how many there are. -/
def readTagBytes (verbatim : Bool) : Nat → Source → Except YamlFault (List UInt8 × Source)
  | 0, s => .ok ([], s)
  | _ + 1, [] => .ok ([], [])
  | fuel + 1, x :: rest =>
    if x.char = '%' then
      match readEscapedChar (x :: rest) with
      | some (bytes, rest) => do
        let (more, rest) ← readTagBytes verbatim fuel rest
        return (bytes ++ more, rest)
      | none => .error (.malformed "a bad escape in a tag")
    else if isTagChar verbatim x.char then do
      let (more, rest) ← readTagBytes verbatim fuel rest
      return (byteOf x.char :: more, rest)
    else .ok ([], x :: rest)

def readHandle (s : Source) : Except YamlFault (List Char × Source) :=
  match s.char? with
  | some '!' =>
    let (word, rest) := Source.span isWord (s.drop 1)
    if Source.char? rest = some '!' then .ok ('!' :: word ++ ['!'], rest.drop 1)
    else .ok ('!' :: word, rest)
  | _ => .error (.malformed "a handle without its sign")

/-- Whether a handle is closed by a second exclamation mark. -/
def isNamedHandle (name : List Char) : Bool := 1 < name.length && name.getLast? == some '!'

/-- A tag is one whole between angle brackets, or a part that a handle completes. -/
def readTag (inFlow : Bool) (s : Source) : Except YamlFault (Token × Source) := do
  let (token, rest) ← parts
  if rest.endsWord || (inFlow && rest.char? == some ',') then return (token, rest)
  else .error (.malformed "a bad end of a tag")
where
  bytes (verbatim : Bool) (s : Source) : Except YamlFault (List UInt8 × Source) :=
    readTagBytes verbatim s.length s
  parts : Except YamlFault (Token × Source) := do
    if Source.char? (s.drop 1) = some '<' then
      let (name, rest) ← bytes true (s.drop 2)
      if name.isEmpty || rest.char? ≠ some '>' then .error (.malformed "a bad tag")
      else return (.tag "" (.ofBytes name), rest.drop 1)
    else
      let (opening, rest) ← readHandle s
      let (more, rest) ← bytes false rest
      if isNamedHandle opening then
        if more.isEmpty then .error (.malformed "a bad tag")
        else return (.tag (String.ofList opening) (.ofBytes more), rest)
      else
        let name := Tag.ofBytes ((opening.drop 1).map byteOf ++ more)
        if name.bytes.isEmpty then return (.tag "" (.ofString "!"), rest)
        else return (.tag "!" name, rest)

/-- No number of a version has more digits. -/
def maxVersionDigits : Nat := 9

def readVersionNumber (s : Source) : Except YamlFault (Nat × Source) :=
  let (digits, rest) := s.span Char.isDigit
  match Text.number? 10 digits with
  | some n =>
    if maxVersionDigits < digits.length then .error (.malformed "a version out of range")
    else .ok (n, rest)
  | none => .error (.malformed "a version without a number")

def readVersion (s : Source) : Except YamlFault (Token × Source) := do
  let (major, s) ← readVersionNumber s.skipBlanks
  if s.char? ≠ some '.' then .error (.malformed "a version without its point")
  else
    let (minor, s) ← readVersionNumber (s.drop 1)
    return (.version major minor, s)

def readHandleMeaning (s : Source) : Except YamlFault (Token × Source) := do
  let (name, s) ← readHandle s.skipBlanks
  if name.length ≠ 1 && !isNamedHandle name then .error (.malformed "a bad handle of tags")
  else if !(s.char?.any isBlank) then .error (.malformed "a handle of tags without its meaning")
  else
    let s := s.skipBlanks
    let (meaning, s) ← readTagBytes true s.length s
    if meaning.isEmpty || !s.endsWord then .error (.malformed "a bad meaning of a handle")
    else return (.handle (String.ofList name) (.ofBytes meaning), s)

def readDirective (s : Source) : Except YamlFault (Token × Source) := do
  let (name, s) := Source.span isWord (s.drop 1)
  if !s.endsWord then .error (.malformed "a bad name of a directive")
  else
    let (token, s) ← match String.ofList name with
      | "YAML" => readVersion s
      | "TAG" => readHandleMeaning s
      | _ => .error (.malformed "an unknown directive")
    return (token, ← s.endLine)

end AuditTrail.Yaml.Token
