import AuditTrail.Text.Digits
import AuditTrail.Yaml.Scalar.Gap

/-!
# Quoted scalars

Between single quotes a doubled quote stands for one.  Between double quotes a backslash begins an
escape, and before a break it joins two lines with nothing between them.
-/

namespace AuditTrail.Yaml.Quoted

def shortEscapes : List (Char × Char) :=
  [('0', '\x00'), ('a', '\x07'), ('b', '\x08'), ('t', '\t'), ('\t', '\t'), ('n', '\n'),
   ('v', '\x0b'), ('f', '\x0c'), ('r', '\r'), ('e', '\x1b'), (' ', ' '), ('"', '"'), ('/', '/'),
   ('\\', '\\'), ('N', '\u0085'), ('_', '\u00a0'), ('L', '\u2028'), ('P', '\u2029')]

/-- Letters that are followed by the code point of a character, with the number of its digits. -/
def codeEscapes : List (Char × Nat) := [('x', 2), ('u', 4), ('U', 8)]

def readEscape (s : Source) : Option (Char × Source) :=
  match s with
  | [] => none
  | x :: rest =>
    match codeEscapes.lookup x.char with
    | none => (shortEscapes.lookup x.char).map fun c => (c, rest)
    | some width => do
      let digits := (rest.take width).map (·.char)
      if digits.length < width then none
      else
        let code ← Text.number? 16 digits
        if code.isValidChar then some (Char.ofNat code, rest.drop width) else none

/-- Reads to the closing quote and past it.  The number bounds the characters of the text. -/
def readBody (quote : Char) : Nat → Source → Except YamlFault (List Char × Source)
  | 0, _ => .error (.malformed "a quote without its end")
  | fuel + 1, s =>
    if s.atDocumentMark then .error (.malformed "a quote around a mark of the document")
    else
      match s with
      | [] => .error (.malformed "a quote without its end")
      | x :: rest =>
        if x.char = quote then
          if quote = '\'' ∧ Source.char? rest = some '\'' then do
            let (text, rest) ← readBody quote fuel (rest.drop 1)
            return ('\'' :: text, rest)
          else .ok ([], rest)
        else if isGap x.char then do
          let (gap, rest) ← Gap.read 0 s
          let (text, rest) ← readBody quote fuel rest
          return (gap.fold ++ text, rest)
        else if quote = '"' ∧ x.char = '\\' then
          if (Source.char? rest).any isBreak then do
            let (breaks, rest) ← Gap.readBreaks 0 (rest.drop 1)
            let (text, rest) ← readBody quote fuel rest
            return (breaks ++ text, rest)
          else
            match readEscape rest with
            | some (c, rest) => do
              let (text, rest) ← readBody quote fuel rest
              return (c :: text, rest)
            | none => .error (.malformed "an unknown escape")
        else do
          let (text, rest) ← readBody quote fuel rest
          return (x.char :: text, rest)

def read (quote : Char) (s : Source) : Except YamlFault (List Char × Source) :=
  readBody quote (s.length + 1) s

end AuditTrail.Yaml.Quoted
