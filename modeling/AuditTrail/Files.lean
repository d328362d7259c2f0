import AuditTrail.Fault
import AuditTrail.Files.Path
import Std.Data.ExtTreeMap

/-!
# Files

A tree of directories and files, with the operations that a store of whitelists and the reader of
a configuration need.  Each operation is one step that either takes effect whole or fails with the
fault that the operating system would give and leaves the tree as it is, but for
`createDirectories`, which may have created the outer ones.
-/

namespace AuditTrail

inductive FileNode where
  | directory
  | file (bytes : ByteArray)

namespace FileNode

instance : DecidableEq FileNode
  | directory, directory => isTrue rfl
  | directory, file _ => isFalse (by simp)
  | file _, directory => isFalse (by simp)
  | file a, file b => decidable_of_iff (a.data = b.data) (by rw [file.injEq, ByteArray.ext_iff])

end FileNode

/-- The names on the way from the root of a tree to a node. -/
abbrev Place := List String

/-- The root is a directory and no node of its own. -/
structure FileTree where
  nodes : Std.ExtTreeMap Place FileNode

namespace FileTree

def empty : FileTree := ⟨∅⟩

def node? (t : FileTree) (place : Place) : Option FileNode :=
  if place = [] then some .directory else t.nodes[place]?

def insert (t : FileTree) (place : Place) (node : FileNode) : FileTree :=
  ⟨t.nodes.insert place node⟩

def enter (t : FileTree) (place : Place) : Except OsFault Unit :=
  match t.node? place with
  | none => .error .notFound
  | some (.file _) => .error .notDirectory
  | some .directory => .ok ()

/-- No name has more bytes. -/
def maxNameSize : Nat := 255

def placeIn (directory : Place) (name : String) : Except OsFault Place :=
  if maxNameSize < name.utf8ByteSize then .error .nameTooLong else .ok (directory ++ [name])

/-- Goes from a place along one segment of a path. -/
def follow (t : FileTree) (place : Place) (segment : String) : Except OsFault Place := do
  t.enter place
  if FilePath.isIdle segment then .ok place
  else if segment = FilePath.outside then .ok place.dropLast
  else placeIn place segment

def resolve (t : FileTree) (p : FilePath) : Except OsFault Place :=
  if p.hasZero then .error .zeroInPath
  else p.segments.foldlM t.follow []

def find (t : FileTree) (p : FilePath) : Except OsFault (Place × FileNode) := do
  let place ← t.resolve p
  match t.node? place with
  | some node => .ok (place, node)
  | none => .error .notFound

/-- Whether there is something at a path.  A file on the way to it is a fault. -/
def exists? (t : FileTree) (p : FilePath) : Except OsFault Bool :=
  match t.find p with
  | .ok _ => .ok true
  | .error .notFound => .ok false
  | .error fault => .error fault

def isDirectory (t : FileTree) (p : FilePath) : Bool :=
  match t.find p with
  | .ok (_, .directory) => true
  | _ => false

def readBytes (t : FileTree) (p : FilePath) : Except OsFault ByteArray := do
  match ← t.find p with
  | (_, .directory) => .error .isDirectory
  | (_, .file bytes) => .ok bytes

def readText (t : FileTree) (p : FilePath) : Except OsFault String := do
  match String.fromUTF8? (← t.readBytes p) with
  | some text => .ok text
  | none => .error .notUtf8

/-- The end of a path as a place to put something. -/
structure Target where
  directory : Place
  last : String
  /-- Whether slashes follow it, as they may after the name of a directory. -/
  slashed : Bool

/-- Where something may be put.  The directory around it must be there. -/
def target (t : FileTree) (p : FilePath) : Except OsFault Target := do
  let segments := (p.segments.reverse.dropWhile (·.isEmpty)).reverse
  if p.hasZero then .error .zeroInPath
  else
    let directory ← t.resolve ⟨segments.dropLast⟩
    t.enter directory
    .ok ⟨directory, segments.getLast?.getD ".", segments.length < p.segments.length⟩

def createDirectory (t : FileTree) (p : FilePath) : Except OsFault FileTree := do
  let target ← t.target p
  if FilePath.isName target.last then
    let place ← placeIn target.directory target.last
    if (t.node? place).isSome then .error .fileExists else .ok (t.insert place .directory)
  else .error .fileExists

/-- Creates a directory, or leaves one that is there. -/
def ensureDirectory (t : FileTree) (p : FilePath) : Except OsFault FileTree :=
  match t.createDirectory p with
  | .error fault => if t.isDirectory p then .ok t else .error fault
  | created => created

/-- Creates a directory after those around it, from the innermost of which there is one. -/
def createAlong (t : FileTree) : List FilePath → Except OsFault Unit × FileTree
  | [] => (.error .notFound, t)
  | p :: outer =>
    match t.ensureDirectory p with
    | .ok t => (.ok (), t)
    | .error .notFound =>
      match createAlong t outer with
      | (.error fault, t) => (.error fault, t)
      | (.ok _, t) =>
        match t.ensureDirectory p with
        | .ok t => (.ok (), t)
        | .error fault => (.error fault, t)
    | .error fault => (.error fault, t)

/-- Creates a directory and those around it that are missing. -/
def createDirectories (t : FileTree) (p : FilePath) : Except OsFault Unit × FileTree :=
  t.createAlong p.ancestors

def writeBytes (t : FileTree) (p : FilePath) (bytes : ByteArray) : Except OsFault FileTree := do
  let target ← t.target p
  if target.slashed || !FilePath.isName target.last then .error .isDirectory
  else
    let place ← placeIn target.directory target.last
    match t.node? place with
    | some .directory => .error .isDirectory
    | _ => .ok (t.insert place (.file bytes))

def writeText (t : FileTree) (p : FilePath) (text : String) : Except OsFault FileTree :=
  t.writeBytes p text.toUTF8

/-- Moves a file, in one step, to the place of another or to a new one. -/
def rename (t : FileTree) (source target : FilePath) : Except OsFault FileTree := do
  let source ← t.target source
  let target ← t.target target
  if !FilePath.isName source.last || !FilePath.isName target.last then .error .busy
  else
    let from_ ← placeIn source.directory source.last
    let to_ ← placeIn target.directory target.last
    match t.node? from_, t.node? to_ with
    | none, _ => .error .notFound
    | some .directory, _ => .error .isDirectory
    | some (.file bytes), there =>
      if source.slashed || target.slashed then .error .notDirectory
      else if there = some .directory then .error .isDirectory
      else .ok (insert ⟨t.nodes.erase from_⟩ to_ (.file bytes))

def remove (t : FileTree) (p : FilePath) : Except OsFault FileTree := do
  let target ← t.target p
  if !FilePath.isName target.last then .error .isDirectory
  else
    let place ← placeIn target.directory target.last
    match t.node? place with
    | none => .error .notFound
    | some .directory => .error .isDirectory
    | some (.file _) => if target.slashed then .error .notDirectory else .ok ⟨t.nodes.erase place⟩

def names (t : FileTree) (p : FilePath) : Except OsFault (List String) := do
  let (place, node) ← t.find p
  match node with
  | .file _ => .error .notDirectory
  | .directory =>
    .ok (t.nodes.keys.filterMap fun q => if q.dropLast = place then q.getLast? else none)

end FileTree
end AuditTrail
