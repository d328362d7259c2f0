import AuditTrail.Error

/-!
# The sink of rendered lines

A sink keeps its lines in the order in which they came.  One that is bounded refuses a line when
it is full, rather than lose it.
-/

namespace AuditTrail

structure Sink where
  lines : List String := []
  maxLines : Option Nat := none
deriving DecidableEq, Repr

namespace Sink

def isFull (s : Sink) : Bool :=
  match s.maxLines with
  | some n => n ≤ s.lines.length
  | none => false

def append (s : Sink) (line : String) : Except Error Sink :=
  if s.isFull then .error (.sink (.full s.lines.length))
  else .ok { s with lines := s.lines ++ [line] }

end Sink
end AuditTrail
