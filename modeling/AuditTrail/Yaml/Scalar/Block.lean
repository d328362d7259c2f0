import AuditTrail.Text.Digits
import AuditTrail.Yaml.Source

/-!
# Block scalars

A block scalar is made of the lines that are indented at least as far as its first one, or as its
header says.  A literal one keeps its breaks.  A folded one joins two lines with a space, unless
one of them begins with a blank.
-/

namespace AuditTrail.Yaml.Block

inductive Chomping where
  | clip
  | strip
  | keep
deriving DecidableEq, Repr

def readChomping (s : Source) : Option Chomping × Source :=
  match s.char? with
  | some '+' => (some .keep, s.drop 1)
  | some '-' => (some .strip, s.drop 1)
  | _ => (none, s)

def readIncrement (s : Source) : Except YamlFault (Option Nat × Source) :=
  match s.char?.bind (Text.digit? 10) with
  | some 0 => .error (.malformed "an indentation of zero")
  | some n => .ok (some n, s.drop 1)
  | none => .ok (none, s)

/-- The two signs of a header may come in either order, and the line ends after them. -/
def readHeader (s : Source) : Except YamlFault (Chomping × Option Nat × Source) := do
  let (before, s) := readChomping s
  let (increment, s) ← readIncrement s
  let (after, s) := if before.isNone && increment.isSome then readChomping s else (none, s)
  return ((before.or after).getD .clip, increment, ← s.endLine)

/-- Reads empty lines and the indentation of the next one, together with the widest indentation met.
Without a limit all spaces are indentation. -/
def readIndentation (limit : Option Nat) (widest : Nat) :
    Source → Except YamlFault (List Char × Nat × Source)
  | [] => .ok ([], widest, [])
  | x :: rest =>
    let inside := limit.all (x.column < ·)
    if x.char = ' ' ∧ inside then readIndentation limit (max widest (x.column + 1)) rest
    else if x.char = '\t' ∧ inside then .error (.malformed "a tab in the indentation")
    else if isBreak x.char then do
      let (breaks, widest, rest) ← readIndentation limit widest rest
      return (x.char :: breaks, widest, rest)
    else .ok ([], widest, x :: rest)

structure Reading where
  text : List Char
  /-- The break after the last line. -/
  lastBreak : List Char
  emptyLines : List Char
  indented : Bool
  rest : Source

/-- The text between the last line and the next one. -/
def Reading.joint (r : Reading) (folded nextIndented : Bool) : List Char :=
  if folded && r.lastBreak == ['\n'] && !r.indented && !nextIndented then
    if r.emptyLines.isEmpty then [' '] else r.emptyLines
  else r.lastBreak ++ r.emptyLines

/-- Reads lines that are indented so far.  The number bounds how many there are. -/
def readLines (folded : Bool) (indent : Nat) : Nat → Reading → Except YamlFault Reading
  | 0, r => .ok r
  | fuel + 1, r =>
    match r.rest with
    | [] => .ok r
    | x :: _ =>
      if x.column = indent then do
        let indented := isBlank x.char
        let (line, s) := r.rest.span (!isBreak ·)
        let lastBreak := (s.take 1).map (·.char)
        let (emptyLines, _, rest) ← readIndentation (some indent) 0 (s.drop 1)
        readLines folded indent fuel
          ⟨r.text ++ r.joint folded indented ++ line, lastBreak, emptyLines, indented, rest⟩
      else .ok r

/-- Reads a block whose sign has been read.  `outer` is where the lines of the collection around it
could begin at the least. -/
def read (folded : Bool) (outer : Nat) (s : Source) : Except YamlFault (List Char × Source) := do
  let (chomping, increment, s) ← readHeader s
  let limit := increment.map (outer - 1 + ·)
  let (emptyLines, widest, s) ← readIndentation limit 0 s
  let indent := limit.getD (max (max widest outer) 1)
  let r ← readLines folded indent s.length ⟨[], [], emptyLines, false, s⟩
  let tail := match chomping with
    | .strip => []
    | .clip => r.lastBreak
    | .keep => r.lastBreak ++ r.emptyLines
  return (r.text ++ tail, r.rest)

end AuditTrail.Yaml.Block
