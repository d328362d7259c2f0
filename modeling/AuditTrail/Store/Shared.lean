import AuditTrail.Store.File

/-!
# A store in a file that is shared

Those who change the document are its writers, and they take a lock.  The writer that holds the lock
reads the document, makes its change in a copy, writes the copy beside the document and renames it.
A load takes no lock and reads the document that is there.

Each function below is one indivisible step, and a run is any sequence of such steps: whichever
writer waits may be the next to take the lock, and loads may come between any two steps.
-/

namespace AuditTrail

/-- What a writer does to the document. -/
inductive StoreChange where
  | grant (role : Role) (r : Resource) (ps : List Permission)
  | saveRole (role : Role) (w : Whitelist)

def StoreChange.on : StoreChange → WhitelistTable → WhitelistTable
  | grant role r ps => FileStore.granting role r ps
  | saveRole role w => FileStore.saving role w

/-- The change of a writer that has the store for itself. -/
def FileStore.change (s : FileStore) : StoreChange → Except Error Unit × FileStore
  | .grant role r ps => s.grant role r ps
  | .saveRole role w => s.saveRole role w

abbrev WriterId := Nat

/-- How far a writer has come.  It holds the lock from `locked` to `ended`. -/
inductive WriterStage where
  | waiting
  | locked
  /-- The document has been read, and the change is made in a copy. -/
  | changed (copy : WhitelistTable)
  /-- The directory of the document is there. -/
  | housed (copy : WhitelistTable)
  | drafted
  /-- The draft has been renamed, or one of the steps has failed. -/
  | ended (answer : Except Error Unit)
  | returned (answer : Except Error Unit)

namespace WriterStage

def orEnded (step : Except Error Unit × FileStore) (next : WriterStage) :
    WriterStage × FileStore :=
  match step with
  | (.ok _, s) => (next, s)
  | (.error e, s) => (ended (.error e), s)

/-- The next step of the writer that holds the lock, up to the end of its change. -/
def work (c : StoreChange) (s : FileStore) : WriterStage → WriterStage × FileStore
  | locked =>
    match s.readAll with
    | .ok table => (changed (c.on table), s)
    | .error e => (ended (.error e), s)
  | changed copy => orEnded s.ensureParent (housed copy)
  | housed copy => orEnded (s.writeDraft (WhitelistTable.toText copy)) drafted
  | drafted => orEnded s.publishDraft (ended (.ok ()))
  | stage => (stage, s)

end WriterStage

structure Writer where
  change : StoreChange
  stage : WriterStage

structure SharedStore where
  store : FileStore
  holder : Option WriterId
  writers : Std.ExtTreeMap WriterId Writer

namespace SharedStore

def new (s : FileStore) : SharedStore := ⟨s, none, ∅⟩

def writer? (w : SharedStore) (id : WriterId) : Option Writer := w.writers[id]?

def setWriter (w : SharedStore) (id : WriterId) (writer : Writer) : SharedStore :=
  { w with writers := w.writers.insert id writer }

def advance (w : SharedStore) (id : WriterId) : SharedStore :=
  match w.writer? id with
  | none => w
  | some ⟨c, stage⟩ =>
    match stage with
    | .waiting =>
      if w.holder.isNone then { w with holder := some id }.setWriter id ⟨c, .locked⟩ else w
    | .ended answer => { w with holder := none }.setWriter id ⟨c, .returned answer⟩
    | .returned _ => w
    | .locked | .changed _ | .housed _ | .drafted =>
      let (stage, store) := stage.work c w.store
      { w with store }.setWriter id ⟨c, stage⟩

inductive Action where
  | arrive (id : WriterId) (c : StoreChange)
  | advance (id : WriterId)

/-- A writer arrives under a number that no other has. -/
def step (w : SharedStore) : Action → SharedStore
  | .arrive id c => if w.writers.contains id then w else w.setWriter id ⟨c, .waiting⟩
  | .advance id => w.advance id

def run (w : SharedStore) (actions : List Action) : SharedStore := actions.foldl step w

def load (w : SharedStore) (role : Role) : Except Error Whitelist := w.store.load role

end SharedStore
end AuditTrail
