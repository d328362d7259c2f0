import AuditTrail.Yaml.Source

/-!
# Gaps between the words of a scalar

Where a scalar runs over several lines, the blanks around a break are dropped and a single line feed
becomes a space.  Of several breaks all but the first are kept.
-/

namespace AuditTrail.Yaml

/-- What stands between two words: blanks alone, or at least one break. -/
structure Gap where
  blanks : List Char
  breaks : List Char
deriving DecidableEq, Repr

namespace Gap

def crossesLine (g : Gap) : Bool := !g.breaks.isEmpty

def fold (g : Gap) : List Char :=
  match g.breaks with
  | [] => g.blanks
  | ['\n'] => [' ']
  | '\n' :: more => more
  | breaks => breaks

/-- Reads breaks and the blanks between them.  A tab may not stand left of `indent`. -/
def readBreaks (indent : Nat) : Source → Except YamlFault (List Char × Source)
  | [] => .ok ([], [])
  | x :: rest =>
    if isBlank x.char then
      if x.char = '\t' ∧ x.column < indent then .error (.malformed "a tab in the indentation")
      else readBreaks indent rest
    else if isBreak x.char then do
      let (breaks, rest) ← readBreaks indent rest
      return (x.char :: breaks, rest)
    else .ok ([], x :: rest)

def read (indent : Nat) (s : Source) : Except YamlFault (Gap × Source) := do
  let (blanks, s) := s.span isBlank
  let (breaks, s) ← readBreaks indent s
  return (⟨blanks, breaks⟩, s)

end Gap
end AuditTrail.Yaml
