import AuditTrail.Role
import AuditTrail.Whitelist

/-!
# Procedures

A procedure is a computation that needs its collaborators: the graph of roles, the cache of
whitelists and the store behind it, and the sink.  It is the tree of what it asks for and of how
it goes on after each answer.  Nothing is asked before the answer it depends on is in, and an
error ends the procedure, so who answers, and what else happens between two answers, is left to
those who run it.
-/

namespace AuditTrail

inductive Scope where
  | role (role : Role)
  | everything
deriving DecidableEq, Repr

inductive Procedure (α : Type) where
  | done (value : α)
  | failed (error : Error)
  /-- Asks for every role that a user holds. -/
  | closure (user : Role) (next : List Role → Procedure α)
  /-- Asks for the same roles with those first that the cache holds at this moment. -/
  | residentFirst (roles : List Role) (next : List Role → Procedure α)
  | whitelist (role : Role) (next : Whitelist → Procedure α)
  | setup (next : Procedure α)
  | append (line : String) (next : Procedure α)
  /-- Makes what the cache has loaded so far out of date. -/
  | bump (scope : Scope) (next : Procedure α)
  | discard (scope : Scope) (next : Procedure α)

namespace Procedure

variable {α β : Type}

def andThen (p : Procedure α) (f : α → Procedure β) : Procedure β :=
  match p with
  | done value => f value
  | failed error => failed error
  | closure user next => closure user fun roles => (next roles).andThen f
  | residentFirst roles next => residentFirst roles fun sorted => (next sorted).andThen f
  | whitelist role next => whitelist role fun w => (next w).andThen f
  | setup next => setup (next.andThen f)
  | append line next => append line (next.andThen f)
  | bump scope next => bump scope (next.andThen f)
  | discard scope next => discard scope (next.andThen f)

instance : Monad Procedure where
  pure := done
  bind := andThen

theorem andThen_done (p : Procedure α) : p.andThen done = p := by
  induction p with
  | done _ | failed _ => rfl
  | closure _ _ ih | residentFirst _ _ ih | whitelist _ _ ih =>
    simp only [andThen]
    congr 1
    funext answer
    exact ih answer
  | setup _ ih | append _ _ ih | bump _ _ ih | discard _ _ ih => simp only [andThen, ih]

theorem andThen_assoc {γ : Type} (p : Procedure α) (f : α → Procedure β) (g : β → Procedure γ) :
    (p.andThen f).andThen g = p.andThen fun a => (f a).andThen g := by
  induction p with
  | done _ | failed _ => rfl
  | closure _ _ ih | residentFirst _ _ ih | whitelist _ _ ih =>
    simp only [andThen]
    congr 1
    funext answer
    exact ih answer
  | setup _ ih | append _ _ ih | bump _ _ ih | discard _ _ ih => simp only [andThen, ih]

instance : LawfulMonad Procedure :=
  LawfulMonad.mk' Procedure (fun p => andThen_done p) (fun _ _ => rfl) (fun p => andThen_assoc p)

def rolesOf (user : Role) : Procedure (List Role) := closure user done

def sortResidentFirst (roles : List Role) : Procedure (List Role) := residentFirst roles done

def whitelistOf (role : Role) : Procedure Whitelist := whitelist role done

def prepareStore : Procedure Unit := setup (done ())

def appendLine (line : String) : Procedure Unit := append line (done ())

/-- Entries are made out of date before they are taken out.  A load that is in flight meanwhile is
then out of date as well, although there is nothing yet to take out. -/
def invalidate (scope : Scope) : Procedure Unit := bump scope (discard scope (done ()))

def isOver : Procedure α → Bool
  | done _ | failed _ => true
  | _ => false

end Procedure
end AuditTrail
