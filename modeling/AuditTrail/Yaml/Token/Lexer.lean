import AuditTrail.Yaml.Scalar.Block
import AuditTrail.Yaml.Scalar.Plain
import AuditTrail.Yaml.Scalar.Quoted
import AuditTrail.Yaml.Token.Property

/-!
# Reading tokens

A key is known as one only when the colon after it is met.  Where a key could begin, the lexer
therefore remembers the place in the tokens as a candidate; the colon puts the sign of a key
there, and in a block also the start of a mapping whose column is that of the candidate.  Blocks
end where a line begins left of their column.
-/

namespace AuditTrail.Yaml

/-- A place where a key may have begun. -/
structure KeyCandidate where
  /-- Nothing but a key can stand there. -/
  required : Bool
  position : Nat
  line : Nat
  column : Nat
deriving DecidableEq, Repr

namespace KeyCandidate

/-- No key is longer. -/
def maxLength : Nat := 1024

/-- A key ends on its own line. -/
def reaches (k : KeyCandidate) (here : Spot) : Bool :=
  k.line == here.line && here.column ≤ k.column + maxLength

end KeyCandidate

structure Lexer where
  source : Source
  tokens : List Token
  count : Nat
  blocks : List Nat
  key : Option KeyCandidate
  /-- The candidates outside of each open flow collection, the innermost first. -/
  outerKeys : List (Option KeyCandidate)
  keyAllowed : Bool

namespace Lexer

def start (source : Source) : Lexer := ⟨source, [], 0, [], none, [], true⟩

def inFlow (l : Lexer) : Bool := !l.outerKeys.isEmpty

/-- Where the lines of what stands in the innermost block may begin. -/
def nextIndent (l : Lexer) : Nat := (l.blocks.head?.map (· + 1)).getD 0

def emit (l : Lexer) (t : Token) : Lexer :=
  { l with tokens := t :: l.tokens, count := l.count + 1 }

/-- Puts a token behind the first `position` ones. -/
def insert (l : Lexer) (position : Nat) (t : Token) : Lexer :=
  { l with
    tokens := l.tokens.insertIdx (l.count - position) t
    count := l.count + 1 }

/-- Begins a block at a column to the right of those that are open. -/
def openBlock (l : Lexer) (column position : Nat) (t : Token) : Lexer :=
  if !l.inFlow && l.blocks.head?.all (· < column) then
    { l.insert position t with blocks := column :: l.blocks }
  else l

/-- Ends the open blocks up to the first that holds on.  A flow collection may have any
indentation. -/
def closeBlocks (l : Lexer) (holds : Nat → Bool) : Lexer :=
  if l.inFlow then l
  else
    let ended := l.blocks.takeWhile (!holds ·)
    { l with
      tokens := ended.map (fun _ => .blockEnd) ++ l.tokens
      count := ended.length + l.count
      blocks := l.blocks.dropWhile (!holds ·) }

def missingColon : YamlFault := .malformed "a key without its colon"

def dropCandidate : Option KeyCandidate → Except YamlFault (Option KeyCandidate)
  | some k => if k.required then .error missingColon else .ok none
  | none => .ok none

def dropKey (l : Lexer) : Except YamlFault Lexer := do
  return { l with key := ← dropCandidate l.key }

/-- Gives up a candidate that can no longer be a key.  One that is outside of a flow collection is
looked at when the collection has ended. -/
def dropStale (l : Lexer) (here : Spot) : Except YamlFault Lexer :=
  if l.key.all (·.reaches here) then .ok l else l.dropKey

def saveKey (l : Lexer) (here : Spot) : Except YamlFault Lexer := do
  if l.keyAllowed then
    let l ← l.dropKey
    let required := !l.inFlow && l.blocks.head? == some here.column
    return { l with key := some ⟨required, l.count, here.line, here.column⟩ }
  else return l

/-- Skips blanks, comments and breaks.  In a block a break lets a key begin, and a tab must not
stand where one can.  A byte order mark is skipped too, but it keeps its column, so that what
follows it is indented. -/
def skip (inFlow : Bool) : (inComment keyAllowed : Bool) → Source → Bool × Source
  | _, keyAllowed, [] => (keyAllowed, [])
  | inComment, keyAllowed, x :: rest =>
    if isBreak x.char then skip inFlow false (keyAllowed || !inFlow) rest
    else if inComment then skip inFlow true keyAllowed rest
    else if x.char = ' ' ∨ (x.char = '\t' ∧ (inFlow ∨ !keyAllowed)) ∨ x.isByteOrderMark then
      skip inFlow false keyAllowed rest
    else if x.char = '#' then skip inFlow true keyAllowed rest
    else (keyAllowed, x :: rest)

def openFlow (l : Lexer) (here : Spot) (rest : Source) (t : Token) : Except YamlFault Lexer := do
  let l ← l.saveKey here
  let l := l.emit t
  return { l with
    source := rest, outerKeys := l.key :: l.outerKeys, key := none, keyAllowed := true }

def closeFlow (l : Lexer) (rest : Source) (t : Token) : Except YamlFault Lexer := do
  let l ← l.dropKey
  let l := match l.outerKeys with
    | [] => l
    | key :: outerKeys => { l with key, outerKeys }
  return { l.emit t with source := rest, keyAllowed := false }

def readComma (l : Lexer) (rest : Source) : Except YamlFault Lexer := do
  let l ← l.dropKey
  return { l.emit .comma with source := rest, keyAllowed := true }

/-- Begins a block with this sign if one of its kind may begin here. -/
def beginEntry (l : Lexer) (here : Spot) (block : Token) : Except YamlFault Lexer :=
  if l.inFlow then .ok l
  else if l.keyAllowed then .ok (l.openBlock here.column l.count block)
  else .error (.malformed "a block that begins within a line")

def readItem (l : Lexer) (here : Spot) (rest : Source) : Except YamlFault Lexer := do
  let l ← (← l.beginEntry here .sequenceStart).dropKey
  return { l.emit .item with source := rest, keyAllowed := true }

def readKey (l : Lexer) (here : Spot) (rest : Source) : Except YamlFault Lexer := do
  let l ← (← l.beginEntry here .mappingStart).dropKey
  return { l.emit .key with source := rest, keyAllowed := !l.inFlow }

/-- A colon makes the candidate a key.  Without one it is the value of an empty key. -/
def readValue (l : Lexer) (here : Spot) (rest : Source) : Except YamlFault Lexer := do
  let l ← match l.key with
    | some k =>
      let l := (l.insert k.position .key).openBlock k.column k.position .mappingStart
      pure { l with key := none, keyAllowed := false }
    | none =>
      let l ← l.beginEntry here .mappingStart
      pure { l with keyAllowed := !l.inFlow }
  return { l.emit .value with source := rest }

/-- Reads what may itself be a key or begin one. -/
def readWith (l : Lexer) (here : Spot) (read : Except YamlFault (Token × Source)) :
    Except YamlFault Lexer := do
  let l ← l.saveKey here
  let (t, source) ← read
  return { l.emit t with source, keyAllowed := false }

def readPlain (l : Lexer) (here : Spot) : Except YamlFault Lexer := do
  let l ← l.saveKey here
  let r ← Plain.read l.inFlow l.nextIndent l.source
  return { l.emit (.scalar (String.ofList r.text) .plain) with
    source := r.rest, keyAllowed := r.crossesLine }

def readQuoted (l : Lexer) (here : Spot) (rest : Source) : Except YamlFault Lexer :=
  l.readWith here do
    let (text, source) ← Quoted.read here.char rest
    return (.scalar (String.ofList text) .quoted, source)

def readBlock (l : Lexer) (rest : Source) (style : Style) : Except YamlFault Lexer := do
  let l ← l.dropKey
  let (text, source) ← Block.read (style == .folded) l.nextIndent rest
  return { l.emit (.scalar (String.ofList text) style) with source, keyAllowed := true }

/-- What belongs to the document as a whole ends every block. -/
def readBetween (l : Lexer) (read : Except YamlFault (Token × Source)) :
    Except YamlFault Lexer := do
  let l ← (l.closeBlocks fun _ => false).dropKey
  let (t, source) ← read
  return { l.emit t with source, keyAllowed := false }

/-- Reads the token that begins with the character `here`, which `rest` follows. -/
def readToken (l : Lexer) (here : Spot) (rest : Source) : Except YamlFault Lexer :=
  if here.column = 0 ∧ here.char = '%' then l.readBetween (Token.readDirective l.source)
  else if l.source.atMark '-' then l.readBetween (.ok (.documentStart, l.source.drop 3))
  else if l.source.atMark '.' then l.readBetween (.ok (.documentEnd, l.source.drop 3))
  else
    match here.char with
    | '[' => l.openFlow here rest .flowSequenceStart
    | '\x7b' => l.openFlow here rest .flowMappingStart
    | ']' => l.closeFlow rest .flowSequenceEnd
    | '\x7d' => l.closeFlow rest .flowMappingEnd
    | ',' => l.readComma rest
    | '-' => if rest.endsWord then l.readItem here rest else l.readPlain here
    | '?' => if l.inFlow || rest.endsWord then l.readKey here rest else l.readPlain here
    | ':' => if l.inFlow || rest.endsWord then l.readValue here rest else l.readPlain here
    | '*' => l.readWith here ((Token.readName rest).map fun (name, s) => (.alias name, s))
    | '&' => l.readWith here ((Token.readName rest).map fun (name, s) => (.anchor name, s))
    | '!' => l.readWith here (Token.readTag l.inFlow l.source)
    | '\'' | '"' => l.readQuoted here rest
    | '|' => if l.inFlow then .error noToken else l.readBlock rest .literal
    | '>' => if l.inFlow then .error noToken else l.readBlock rest .folded
    | '#' | '%' | '@' | '\u0060' => .error noToken
    | c => if isGap c then .error noToken else l.readPlain here
where
  noToken : YamlFault := .malformed "a character that begins no token"

/-- Reads the tokens to the end.  The number bounds how many there are. -/
def run : Nat → Lexer → Except YamlFault (List Token)
  | 0, _ => .error (.malformed "more tokens than characters")
  | fuel + 1, l =>
    let (keyAllowed, source) := skip l.inFlow false l.keyAllowed l.source
    match source with
    | [] => do
      let l ← (l.closeBlocks fun _ => false).dropKey
      return l.tokens.reverse
    | here :: rest => do
      let l ← dropStale { l with source, keyAllowed } here
      let l ← (l.closeBlocks (· ≤ here.column)).readToken here rest
      run fuel l

end Lexer

/-- Every token that is read takes at least one character. -/
def Token.ofSource (s : Source) : Except YamlFault (List Token) :=
  (Lexer.start s).run (s.length + 1)

end AuditTrail.Yaml
