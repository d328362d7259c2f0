import AuditTrail.Yaml.Tag

/-!
# Scalars

A scalar is a text with the style in which it was written.  The style matters, since only what is
written plainly may mean something else than its own text.
-/

namespace AuditTrail.Yaml

inductive Style where
  | plain
  | quoted
  | literal
  | folded
deriving DecidableEq, Repr

structure Scalar where
  text : String
  style : Style
  tag : Option Tag
deriving DecidableEq, Repr

namespace Scalar

def empty : Scalar := ⟨"", .plain, none⟩

def isEmpty (s : Scalar) : Bool := s.text.isEmpty && s.style == .plain

def nullWords : List String := ["null", "Null", "NULL", "~"]

/-- Plainly nothing, in a word or without one. -/
def isNothing (s : Scalar) : Bool :=
  s.style == .plain && (s.text.isEmpty || nullWords.contains s.text)

end Scalar
end AuditTrail.Yaml
