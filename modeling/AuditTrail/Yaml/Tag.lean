/-!
# Tags

A tag names the type of a node.  Its name is made of bytes, since an escape may spell any of them,
and the first zero byte ends it.
-/

namespace AuditTrail.Yaml

structure Tag where
  bytes : List UInt8
deriving DecidableEq, Repr

namespace Tag

/-- A name without what a zero byte cuts off. -/
def ofBytes (bytes : List UInt8) : Tag := ⟨bytes.takeWhile (· ≠ 0)⟩

def ofString (name : String) : Tag := ofBytes name.toUTF8.data.toList

def number : Tag := ofString "tag:yaml.org,2002:int"

def null : Tag := ofString "tag:yaml.org,2002:null"

def localSign : UInt8 := 33

/-- The name of a tag of the host, which is the sign itself where nothing follows it.  Other tags
have no such name, and neither have bytes that are no text. -/
def localName? (t : Tag) : Option String :=
  match t.bytes with
  | sign :: rest =>
    if sign = localSign then String.fromUTF8? ⟨(if rest.isEmpty then [sign] else rest).toArray⟩
    else none
  | [] => none

/-- A part of a name put behind the first part of it. -/
def append (first rest : Tag) : Tag := ⟨first.bytes ++ rest.bytes⟩

instance : Append Tag := ⟨append⟩

end Tag
end AuditTrail.Yaml
