/-!
# Paths

A path is kept as it is written, since messages show it so.  What stands between two slashes is a
segment: a name, two dots for the directory outside, or one that is idle, which is empty or a single
dot and stays where it is.
-/

namespace AuditTrail

structure FilePath where
  segments : List String
deriving DecidableEq, Repr

namespace FilePath

def ofString (text : String) : FilePath := ⟨(text.toList.splitOn '/').map String.ofList⟩

def toString (p : FilePath) : String := "/".intercalate p.segments

def outside : String := ".."

def isIdle (segment : String) : Bool := segment.isEmpty || segment == "."

/-- Whether a segment can name something in a directory. -/
def isName (segment : String) : Bool := !isIdle segment && segment != outside

def trimmed (p : FilePath) : FilePath := ⟨(p.segments.reverse.dropWhile isIdle).reverse⟩

def parent (p : FilePath) : FilePath := trimmed ⟨p.trimmed.segments.dropLast⟩

/-- A path and so many of those around it. -/
def ancestorsWithin : Nat → FilePath → List FilePath
  | 0, p => [p]
  | n + 1, p => p :: ancestorsWithin n p.parent

def ancestors (p : FilePath) : List FilePath := p.ancestorsWithin p.segments.length

/-- No path with a zero character can be given to the system. -/
def hasZero (p : FilePath) : Bool := p.segments.any (·.contains '\x00')

/-- A path under another one.  One that begins with a slash stands for itself. -/
def join (p q : FilePath) : FilePath :=
  if q.segments.length > 1 ∧ q.segments.head? = some "" then q
  else ⟨p.segments ++ q.segments⟩

/-- A name up to the last dot in it.  A name that begins with its only dot is taken whole. -/
def stem (name : List Char) : List Char :=
  let before := (name.reverse.dropWhile (· ≠ '.')).drop 1
  if before.isEmpty then name else before.reverse

/-- The same place under a name whose extension is `extension`.  There is none where the path does
not end in a name, and where the name is two dots and an extension, which without it are no name. -/
def withExtension (p : FilePath) (extension : String) : FilePath :=
  match p.trimmed.segments.getLast? with
  | none => p
  | some name =>
    let stem := stem name.toList
    let outer := p.trimmed.segments.dropLast
    if name = outside then p
    else if stem = ['.'] ∧ p = p.trimmed then ⟨outer ++ [outside]⟩
    else ⟨outer ++ [String.ofList stem ++ "." ++ extension]⟩

end FilePath
end AuditTrail
