import AuditTrail.Yaml.Scalar.Gap

/-!
# Plain scalars

A plain scalar has no quotes, so it ends where something else can begin: at a colon that ends a
word, at a comment, at a mark of the document, left of its indentation, and in a flow collection
at the signs of that collection.
-/

namespace AuditTrail.Yaml.Plain

def isFlowSign (c : Char) : Bool := [',', '[', ']', '\x7b', '\x7d'].contains c

/-- What may not follow a colon in a flow collection. -/
def touches (c : Char) : Bool := isFlowSign c || c == '?'

/-- Reads to the end of a word.  The colon between a key and a value of a flow collection must not
touch a sign of the collection. -/
def readWord (inFlow : Bool) : Source → Except YamlFault (List Char × Source)
  | [] => .ok ([], [])
  | x :: rest =>
    if isGap x.char then .ok ([], x :: rest)
    else if inFlow && x.char == ':' && (Source.char? rest).any touches then
      .error (.malformed "a colon before a sign of a flow collection")
    else if x.char == ':' && Source.endsWord rest then .ok ([], x :: rest)
    else if inFlow && isFlowSign x.char then .ok ([], x :: rest)
    else do
      let (word, rest) ← readWord inFlow rest
      return (x.char :: word, rest)

/-- The rest of a scalar after some words of it. -/
structure Reading where
  text : List Char
  crossesLine : Bool
  rest : Source

/-- Reads words and the gaps between them.  The number bounds the words. -/
def readWords (inFlow : Bool) (indent : Nat) : Nat → Source → Except YamlFault Reading
  | 0, s => .ok ⟨[], false, s⟩
  | fuel + 1, s => do
    if s.atDocumentMark || s.char? = some '#' then return ⟨[], false, s⟩
    let (word, rest) ← readWord inFlow s
    if word.isEmpty || !(rest.char?.any isGap) then return ⟨word, false, rest⟩
    let (gap, rest) ← Gap.read indent rest
    if !inFlow && rest.head?.any (·.column < indent) then return ⟨word, gap.crossesLine, rest⟩
    let more ← readWords inFlow indent fuel rest
    if more.text.isEmpty then return ⟨word, gap.crossesLine, more.rest⟩
    return ⟨word ++ gap.fold ++ more.text, more.crossesLine, more.rest⟩

/-- Every word takes at least one character. -/
def read (inFlow : Bool) (indent : Nat) (s : Source) : Except YamlFault Reading :=
  readWords inFlow indent s.length s

end AuditTrail.Yaml.Plain
