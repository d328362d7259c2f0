import AuditTrail.Files
import AuditTrail.Store
import AuditTrail.Text.Blank
import AuditTrail.Whitelist.Document

/-!
# A store in a file

One document holds the whitelists of all roles.  Every load reads it, and every change reads it,
writes the new document beside it and renames that into its place.  What is at the store's path
therefore changes in one step, from one complete document to another.
-/

namespace AuditTrail

structure FileStore where
  path : FilePath
  files : FileTree

namespace FileStore

def draftPath (s : FileStore) : FilePath := s.path.withExtension "tmp"

/-- The document.  One that is absent, or has nothing in it but white space, holds no whitelists. -/
def readAll (s : FileStore) : Except Error WhitelistTable :=
  match s.files.readText s.path with
  | .error .notFound => .ok ∅
  | .error fault => .error (.store (.unreadable s.path.toString fault))
  | .ok text =>
    if Text.isAllBlank text then .ok ∅
    else
      match WhitelistTable.ofText text with
      | .ok table => .ok table
      | .error fault => .error (.store (.unparsable s.path.toString fault))

def ensureParent (s : FileStore) : Except Error Unit × FileStore :=
  match s.files.createDirectories s.path.parent with
  | (.ok _, files) => (.ok (), { s with files })
  | (.error fault, files) =>
    (.error (.store (.noDirectory s.path.parent.toString fault)), { s with files })

def writeDraft (s : FileStore) (text : String) : Except Error Unit × FileStore :=
  match s.files.writeText s.draftPath text with
  | .ok files => (.ok (), { s with files })
  | .error fault => (.error (.store (.unwritable s.draftPath.toString fault)), s)

def publishDraft (s : FileStore) : Except Error Unit × FileStore :=
  match s.files.rename s.draftPath s.path with
  | .ok files => (.ok (), { s with files })
  | .error fault =>
    (.error (.store (.notRenamed s.draftPath.toString s.path.toString fault)), s)

def andThen (step : Except Error Unit × FileStore)
    (next : FileStore → Except Error Unit × FileStore) : Except Error Unit × FileStore :=
  match step with
  | (.ok _, s) => next s
  | (.error e, s) => (.error e, s)

def writeAll (s : FileStore) (table : WhitelistTable) : Except Error Unit × FileStore :=
  andThen s.ensureParent fun s =>
    andThen (s.writeDraft (WhitelistTable.toText table)) publishDraft

def update (s : FileStore) (change : WhitelistTable → WhitelistTable) :
    Except Error Unit × FileStore :=
  match s.readAll with
  | .ok table => s.writeAll (change table)
  | .error e => (.error e, s)

def granting (role : Role) (r : Resource) (ps : List Permission) (table : WhitelistTable) :
    WhitelistTable :=
  table.insert role ((table.getD role ∅).grant r ps)

/-- What saving a role does to the document.  An empty whitelist is not kept. -/
def saving (role : Role) (w : Whitelist) (table : WhitelistTable) : WhitelistTable :=
  if w.isEmpty then table.erase role else table.insert role w

def grant (s : FileStore) (role : Role) (r : Resource) (ps : List Permission) :
    Except Error Unit × FileStore :=
  s.update (granting role r ps)

def saveRole (s : FileStore) (role : Role) (w : Whitelist) : Except Error Unit × FileStore :=
  s.update (saving role w)

def load (s : FileStore) (role : Role) : Except Error Whitelist := do
  return (← s.readAll).getD role ∅

/-- Checks the document that is there, or writes an empty one. -/
def setup (s : FileStore) : Except Error Unit × FileStore :=
  match s.files.exists? s.path with
  | .error fault => (.error (.io fault), s)
  | .ok true => (s.readAll.map fun _ => (), s)
  | .ok false => s.writeAll ∅

instance : WhitelistStore FileStore where
  load s role := (s.load role, s)
  setup s := s.setup
  name _ := "file"

end FileStore
end AuditTrail
