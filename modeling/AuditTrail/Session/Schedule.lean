import AuditTrail.Session.State

/-!
# Running the tasks of a session

One task runs at a time, until it is over or has to wait.  The task that started a load carries it
through; when the load ends, it goes on first and the others that waited follow in the order in
which they came.
-/

namespace AuditTrail.Session

/-- Whether the load of a task may pass the gate now.  If not, the task stands in line. -/
def passGate (s : Session) (id : TaskId) : Bool × Session :=
  if id ∈ s.admitted then (true, { s with admitted := s.admitted.erase id })
  else
    match s.gate with
    | none => (true, s)
    | some g =>
      if id ∈ g.line then (false, s)
      else if 0 < g.permits then (true, { s with gate := some { g with permits := g.permits - 1 } })
      else (false, { s with gate := some { g with line := g.line ++ [id] } })

/-- Ends the load of a role, and lets those run who waited for the task that carried it. -/
def endLoad (s : Session) (role : Role) (others : List TaskId) : Session :=
  { s with
    world := s.world.deliver role (s.refusalOf role)
    ready := s.ready ++ others }

/-- Runs a task until it is over or has to wait, for at most so many steps. -/
def runTask : Nat → TaskId → Session → Session
  | 0, _, s => s
  | steps + 1, id, s =>
    match s.world.task? id with
    | none => s
    | some ⟨.done _, _⟩ | some ⟨.failed _, _⟩ => s
    | some ⟨.whitelist role _, .waiting⟩ =>
      match s.world.cache.flight? role with
      | some ⟨stage, first :: others⟩ =>
        if first ≠ id then s
        else
          match stage with
          | .answered _ _ =>
            match s.passGate id with
            | (true, s) => runTask steps id (s.endLoad role others)
            | (false, s) => s
          | _ => runTask steps id { s with world := s.world.proceed role }
      | _ => s
    | some _ => runTask steps id { s with world := s.world.advance id }

/-- No closure of the graph has more roles than this, nor had it before. -/
def maxRoles (s : Session) : Nat := s.roleGrants + 1

/-- A request takes at most two rounds while no one invalidates anything, and a round takes at most
twelve steps.  Besides its requests a procedure takes a few steps of its own. -/
def maxSteps (s : Session) : Nat := 24 * s.maxRoles + 24

/-- Runs every task that can run, for at most so many turns. -/
def settleIn : Nat → Session → Session
  | 0, s => s
  | turns + 1, s =>
    match s.ready with
    | [] => s
    | id :: rest => settleIn turns (runTask s.maxSteps id { s with ready := rest })

/-- Each request of a task waits at most twice, and each wait gives it one more turn. -/
def maxTurns (s : Session) : Nat :=
  s.ready.length + 2 * (s.world.tasks.size * (s.maxRoles + 1)) + 1

def settle (s : Session) : Session := s.settleIn s.maxTurns

def spawn (s : Session) (procedure : Procedure Outcome) : TaskId × Session :=
  let id := s.nextTask
  (id, { s with
    world := s.world.resume id procedure
    ready := s.ready ++ [id]
    nextTask := id + 1 }.settle)

def result? (s : Session) (id : TaskId) : Option (Except Error Outcome) :=
  match s.world.task? id with
  | some ⟨.done outcome, _⟩ => some (.ok outcome)
  | some ⟨.failed e, _⟩ => some (.error e)
  | _ => none

def forget (s : Session) (id : TaskId) : Session := { s with world := s.world.forget id }

end AuditTrail.Session
