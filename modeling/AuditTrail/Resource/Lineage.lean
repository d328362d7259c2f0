import AuditTrail.Resource

/-!
# Enclosing scopes

`lineage` walks from a resource to its root, one separator at a time, and `isWithin` tests
containment directly on the two paths.  An exemption on any element of the lineage covers the
resource.
-/

namespace AuditTrail.Resource

def upToLast? : List Char → Option (List Char)
  | [] => none
  | c :: cs =>
    match upToLast? cs with
    | some front => some (c :: front)
    | none => if c = separator then some [] else none

theorem length_upToLast? {cs front : List Char} (h : upToLast? cs = some front) :
    front.length < cs.length := by
  induction cs generalizing front with
  | nil => simp [upToLast?] at h
  | cons c cs ih =>
    rw [upToLast?] at h
    split at h
    · rename_i f hf
      cases h
      have := ih hf
      simp
      omega
    · split at h
      · cases h
        simp
      · cases h

def hasParent (r : Resource) : Bool := r.chars.contains separator

def parent? (r : Resource) : Option Resource := (upToLast? r.chars).map ofChars

theorem length_parent? {r p : Resource} (h : r.parent? = some p) :
    p.chars.length < r.chars.length := by
  obtain ⟨front, hfront, rfl⟩ := Option.map_eq_some_iff.1 h
  simpa using length_upToLast? hfront

/-- The resource and every scope around it, nearest first. -/
def lineage (r : Resource) : List Resource :=
  r :: match _h : r.parent? with
    | none => []
    | some p => lineage p
termination_by r.chars.length
decreasing_by exact length_parent? _h

/-- Whether `r` is `scope` or lies below it. -/
def isWithin (r scope : Resource) : Bool :=
  r == scope || (scope.chars ++ [separator]).isPrefixOf r.chars

end AuditTrail.Resource
