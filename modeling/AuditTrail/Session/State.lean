import AuditTrail.Pipeline
import AuditTrail.Session.Store
import AuditTrail.World

/-!
# Sessions

A session is a world with a pipeline, driven one command at a time.  Two devices show how tasks
share the cache: a gate holds loads back after the store has answered and lets them pass one by
one, and a refusal makes the load of a role fail.
-/

namespace AuditTrail

inductive Outcome where
  | unit
  | flag (b : Bool)
  | whitelist (w : Whitelist)
deriving DecidableEq

/-- A closed gate.  Loads that arrive use up the permits, and the others wait in line. -/
structure Gate where
  permits : Nat
  line : List TaskId
deriving DecidableEq, Repr

namespace Gate

def closed : Gate := ⟨0, []⟩

/-- Those who pass when `n` more loads may, and the gate after it. -/
def release (g : Gate) (n : Nat) : List TaskId × Gate :=
  (g.line.take n, ⟨g.permits + (n - g.line.length), g.line.drop n⟩)

end Gate

structure Session where
  world : World Session.Store Outcome
  pipeline : Pipeline
  gate : Option Gate
  /-- Failures of loads by the name of the role. -/
  refusals : Std.ExtTreeMap String Error
  /-- Tasks that can run, in the order in which they will. -/
  ready : List TaskId
  admitted : List TaskId
  names : Std.ExtTreeMap String TaskId
  nextTask : TaskId
  /-- How often a role has been granted.  No closure of the graph has had more roles than that
  and one, also when some have been revoked since. -/
  roleGrants : Nat

namespace Session

/-- The key of a refusal that holds for every role without one of its own. -/
def anyRole : String := "*"

/-- A fault of the cache's settings is met before one of the pipeline's. -/
def start (settings : Config.Settings) (maxLines : Option Nat) (store : Store) : Build Session := do
  let cache ← Cache.ofSettings settings.cache
  let pipeline ← Pipeline.ofSettings settings
  return {
    world := ⟨RoleGraph.empty, none, store, cache, { maxLines }, ∅⟩
    pipeline
    gate := none
    refusals := ∅
    ready := []
    admitted := []
    names := ∅
    nextTask := 0
    roleGrants := 0 }

def refusalOf (s : Session) (role : Role) : Option Error :=
  (s.refusals[role.name]?).or (s.refusals[anyRole]?)

def verdict (s : Session) (role : Role) (answer : Except Error Whitelist) :
    Except Error Whitelist :=
  match s.refusalOf role with
  | some e => .error e
  | none => answer

end Session
end AuditTrail
