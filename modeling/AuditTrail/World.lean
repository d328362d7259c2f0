import AuditTrail.Cache
import AuditTrail.Role.Graph
import AuditTrail.Sink
import AuditTrail.Store

/-!
# Tasks that share their collaborators

A world holds one graph of roles, one store, one cache and one sink, and the tasks that use them.
Each function below is one indivisible step, and a run of the system is any sequence of such
steps: tasks advance in any order, loads proceed on their own, and the store and the graph change
in between.

A task is a procedure and, while it asks the cache for a whitelist, the stage of that request.  A
request consults the cache, waits for a load if the role is absent, and compares the stamp of the
entry it gets with the generation of the role.  If they differ it takes the entry out and begins
again.
-/

namespace AuditTrail

inductive RequestStage where
  | probing
  | waiting
  | holding (entry : Cache.Entry)
  /-- The counter of the role has been read, and the epoch has not. -/
  | counted (entry : Cache.Entry) (counter : Nat)
  /-- The stamp differs from the generation that was read. -/
  | outdated (entry : Cache.Entry)

structure Task (ρ : Type) where
  procedure : Procedure ρ
  stage : RequestStage

namespace Task

def start {ρ : Type} (procedure : Procedure ρ) : Task ρ := ⟨procedure, .probing⟩

def receive {ρ : Type} (t : Task ρ) (generation : Generation) : Except Error Whitelist → Task ρ
  | .ok w => { t with stage := .holding ⟨generation, w⟩ }
  | .error e => start (.failed e.relayed)

end Task

structure World (σ ρ : Type) where
  graph : RoleGraph
  /-- Why the graph cannot be read, at times when it cannot. -/
  graphFault : Option String
  store : σ
  cache : Cache
  sink : Sink
  tasks : Std.ExtTreeMap TaskId (Task ρ)

namespace World

variable {σ ρ : Type}

def task? (w : World σ ρ) (id : TaskId) : Option (Task ρ) := w.tasks[id]?

def setTask (w : World σ ρ) (id : TaskId) (t : Task ρ) : World σ ρ :=
  { w with tasks := w.tasks.insert id t }

def resume (w : World σ ρ) (id : TaskId) (p : Procedure ρ) : World σ ρ :=
  w.setTask id (Task.start p)

def forget (w : World σ ρ) (id : TaskId) : World σ ρ := { w with tasks := w.tasks.erase id }

def rolesOf (w : World σ ρ) (user : Role) : Except Error (List Role) :=
  match w.graphFault with
  | some reason => .error (.roleHierarchy user.name reason)
  | none => .ok (w.graph.closure user)

def request (w : World σ ρ) (id : TaskId) (role : Role) (next : Whitelist → Procedure ρ)
    (stage : RequestStage) : World σ ρ :=
  let moveTo (w : World σ ρ) (stage : RequestStage) := w.setTask id ⟨.whitelist role next, stage⟩
  match stage with
  | .probing =>
    match w.cache.entry? role with
    | some entry => moveTo w (.holding entry)
    | none => moveTo { w with cache := w.cache.join role id } .waiting
  | .waiting => w
  | .holding entry => moveTo w (.counted entry (w.cache.counter role))
  | .counted entry counter =>
    if entry.generation = ⟨w.cache.epoch, counter⟩ then w.resume id (next entry.whitelist)
    else moveTo w (.outdated entry)
  | .outdated _ => moveTo { w with cache := w.cache.discard (.role role) } .probing

def prepare [WhitelistStore σ] (w : World σ ρ) : Except Error Unit × World σ ρ :=
  let (answer, store) := WhitelistStore.setup w.store
  (answer, { w with store })

def advance [WhitelistStore σ] (w : World σ ρ) (id : TaskId) : World σ ρ :=
  match w.task? id with
  | none => w
  | some ⟨procedure, stage⟩ =>
    match procedure with
    | .done _ | .failed _ => w
    | .closure user next =>
      match w.rolesOf user with
      | .ok roles => w.resume id (next roles)
      | .error e => w.resume id (.failed e)
    | .residentFirst roles next =>
      let (resident, absent) := roles.partition w.cache.isResident
      w.resume id (next (resident ++ absent))
    | .whitelist role next => w.request id role next stage
    | .setup next =>
      match w.prepare with
      | (.ok _, w) => w.resume id next
      | (.error e, w) => w.resume id (.failed e)
    | .append line next =>
      match w.sink.append line with
      | .ok sink => { w with sink }.resume id next
      | .error e => w.resume id (.failed e)
    | .bump scope next => { w with cache := w.cache.bump scope }.resume id next
    | .discard scope next => { w with cache := w.cache.discard scope }.resume id next

/-- One step of the load in flight for a role, up to the answer of the store. -/
def proceed [WhitelistStore σ] (w : World σ ρ) (role : Role) : World σ ρ :=
  let moveTo (w : World σ ρ) (stage : Cache.LoadStage) :=
    { w with cache := w.cache.setStage role stage }
  match w.cache.flight? role with
  | none => w
  | some ⟨.begun, _⟩ => moveTo w (.counted (w.cache.counter role))
  | some ⟨.counted counter, _⟩ => moveTo w (.stamped ⟨w.cache.epoch, counter⟩)
  | some ⟨.stamped generation, _⟩ => moveTo w (.asked generation)
  | some ⟨.asked generation, _⟩ =>
    let (answer, store) := WhitelistStore.load w.store role
    moveTo { w with store } (.answered generation answer)
  | some ⟨.answered _ _, _⟩ => w

/-- Ends the load in flight for a role once the store has answered.  A refusal takes the place of
the answer.  A whitelist becomes resident and an error does not; all who wait are told. -/
def deliver (w : World σ ρ) (role : Role) (refusal : Option Error) : World σ ρ :=
  match w.cache.flight? role with
  | some ⟨.answered generation answer, waiters⟩ =>
    let outcome := match refusal with
      | some e => .error e
      | none => answer
    let landed := w.cache.land role
    let cache := match outcome with
      | .ok whitelist => landed.keep role ⟨generation, whitelist⟩
      | .error _ => landed
    let tasks := w.tasks.map fun id t =>
      if id ∈ waiters then t.receive generation outcome else t
    { w with cache, tasks }
  | _ => w

inductive Action (σ ρ : Type) where
  | spawn (id : TaskId) (procedure : Procedure ρ)
  | advance (id : TaskId)
  | proceed (role : Role)
  | deliver (role : Role) (refusal : Option Error)
  | changeStore (store : σ)
  | changeGraph (graph : RoleGraph)

/-- A task is spawned under a number that no other task has. -/
def step [WhitelistStore σ] (w : World σ ρ) : Action σ ρ → World σ ρ
  | .spawn id procedure => if w.tasks.contains id then w else w.resume id procedure
  | .advance id => w.advance id
  | .proceed role => w.proceed role
  | .deliver role refusal => w.deliver role refusal
  | .changeStore store => { w with store }
  | .changeGraph graph => { w with graph }

def run [WhitelistStore σ] (w : World σ ρ) (actions : List (Action σ ρ)) : World σ ρ :=
  actions.foldl step w

end World
end AuditTrail
