import AuditTrail.Error

/-!
# Failing to build

A component that is built from configuration may be refused with an error, which its host handles,
or may bring the host down.  The two outcomes are kept apart, so that a statement about a build
says which of them it excludes.
-/

namespace AuditTrail

inductive Crash where
  /-- An offset without a colon is cut after its second byte, and that byte ends no character. -/
  | offsetCutInsideCharacter
  /-- A cached entry would be kept for longer than the cache can reckon. -/
  | lifetimeTooLong
deriving DecidableEq, Repr

inductive Failure where
  | refused (error : Error)
  | crashed (crash : Crash)
deriving DecidableEq, Repr

abbrev Build (α : Type) := Except Failure α

namespace Build

def refuse {α : Type} (e : Error) : Build α := .error (.refused e)

def crash {α : Type} (c : Crash) : Build α := .error (.crashed c)

def ofExcept {α : Type} : Except Error α → Build α
  | .ok a => .ok a
  | .error e => refuse e

end Build
end AuditTrail
