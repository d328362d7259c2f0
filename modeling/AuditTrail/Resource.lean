import AuditTrail.Error
import Std.Data.ExtTreeMap

/-!
# Resources

A resource is named by a path of segments under a scope, such as `data/ks/tbl`.  `Resource.parse`
reads a path that a person wrote and drops redundant separators.  The constructors put their
arguments into the path as they are, so a resource may hold empty segments or more segments than
it was given.
-/

namespace AuditTrail

structure Resource where
  path : String
deriving DecidableEq, Repr

namespace Resource

def separator : Char := '/'

instance : Ord Resource := ⟨fun a b => compare a.path b.path⟩

instance : Std.TransOrd Resource := inferInstanceAs (Std.TransCmp (compareOn Resource.path))

instance : Std.LawfulEqOrd Resource where
  eq_of_compare {a b} h := by
    cases a
    cases b
    exact congrArg mk (Std.LawfulEqOrd.eq_of_compare h)

def chars (r : Resource) : List Char := r.path.toList

def ofChars (cs : List Char) : Resource := ⟨String.ofList cs⟩

@[simp] theorem chars_ofChars (cs : List Char) : (ofChars cs).chars = cs := by
  simp [chars, ofChars]

@[simp] theorem ofChars_chars (r : Resource) : ofChars r.chars = r := by
  simp [chars, ofChars]

theorem ext_chars {a b : Resource} (h : a.chars = b.chars) : a = b := by
  rw [← ofChars_chars a, h, ofChars_chars]

/-- The segments of a path, without the empty ones that redundant separators leave. -/
def segments (path : List Char) : List (List Char) :=
  (path.splitOn separator).filter fun segment => !segment.isEmpty

def parse? (path : String) : Option Resource :=
  match segments path.toList with
  | [] => none
  | first :: rest => some (ofChars ([separator].intercalate (first :: rest)))

def parse (path : String) : Except Error Resource :=
  match parse? path with
  | some r => .ok r
  | none => .error (.invalidResource path)

def data : Resource := ⟨"data"⟩

def keyspace (name : String) : Resource := ⟨"data/" ++ name⟩

def table (keyspace name : String) : Resource := ⟨"data/" ++ keyspace ++ "/" ++ name⟩

def roles : Resource := ⟨"roles"⟩

def role (name : String) : Resource := ⟨"roles/" ++ name⟩

end Resource
end AuditTrail
