import AuditTrail.Role
import Std.Data.ExtTreeSet

/-!
# Grants between roles

A graph holds the direct grants.  `closure` follows them from one role to every role that it holds
in the end, its own included, whatever cycles the grants form.
-/

namespace AuditTrail

structure RoleGraph where
  direct : Std.ExtTreeMap Role (Std.ExtTreeSet Role)

namespace RoleGraph

def empty : RoleGraph := ⟨∅⟩

def grantedTo (g : RoleGraph) (grantee : Role) : List Role := (g.direct.getD grantee ∅).toList

def holds (g : RoleGraph) (grantee granted : Role) : Bool :=
  (g.direct.getD grantee ∅).contains granted

def grant (g : RoleGraph) (grantee granted : Role) : RoleGraph :=
  ⟨g.direct.insert grantee ((g.direct.getD grantee ∅).insert granted)⟩

/-- Takes a direct grant back, and tells whether there was one. -/
def revoke (g : RoleGraph) (grantee granted : Role) : Bool × RoleGraph :=
  match g.direct[grantee]? with
  | none => (false, g)
  | some roles => (roles.contains granted, ⟨g.direct.insert grantee (roles.erase granted)⟩)

def unvisited (g : RoleGraph) (visited : List Role) : List Role :=
  g.direct.keys.filter (· ∉ visited)

theorem length_filter_lt {α : Type} {p q : α → Bool} {l : List α} {a : α}
    (himp : ∀ x, q x = true → p x = true) (ha : a ∈ l) (hp : p a = true) (hq : q a = false) :
    (l.filter q).length < (l.filter p).length := by
  have hsub : l.filter q = (l.filter p).filter q := by
    rw [List.filter_filter]
    refine List.filter_congr fun x _ => ?_
    cases hx : q x
    · simp
    · simp [himp x hx]
  rw [hsub]
  refine List.length_filter_lt_length_iff_exists.2 ⟨a, List.mem_filter.2 ⟨ha, hp⟩, ?_⟩
  simp [hq]

/-- Visiting a grantee leaves one fewer to visit. -/
theorem length_unvisited_lt {g : RoleGraph} {visited : List Role} {r : Role}
    (hr : r ∉ visited) (hkey : r ∈ g.direct) :
    (g.unvisited (visited ++ [r])).length < (g.unvisited visited).length := by
  refine length_filter_lt (a := r) ?_ ?_ ?_ ?_
  · intro x hx
    simp at hx
    simp [hx.1]
  · simpa using hkey
  · simpa using hr
  · simp

theorem unvisited_append_of_not_mem {g : RoleGraph} {visited : List Role} {r : Role}
    (hkey : r ∉ g.direct) : g.unvisited (visited ++ [r]) = g.unvisited visited := by
  refine List.filter_congr fun x hx => ?_
  have hne : x ≠ r := by
    rintro rfl
    exact hkey (by simpa using hx)
  simp [hne]

/-- Visits the queue in order and puts what each role is granted at its end. -/
def visit (g : RoleGraph) (visited queue : List Role) : List Role :=
  match queue with
  | [] => visited
  | r :: rest =>
    if _hv : r ∈ visited then visit g visited rest
    else if _hk : r ∈ g.direct then
      visit g (visited ++ [r]) (rest ++ (g.grantedTo r).filter (· ∉ visited ++ [r]))
    else visit g (visited ++ [r]) rest
termination_by ((g.unvisited visited).length, queue.length)
decreasing_by
  · exact Prod.Lex.right _ (by simp)
  · exact Prod.Lex.left _ _ (length_unvisited_lt _hv _hk)
  · rw [unvisited_append_of_not_mem _hk]
    exact Prod.Lex.right _ (by simp)

/-- Every role that `r` holds, `r` itself first. -/
def closure (g : RoleGraph) (r : Role) : List Role := g.visit [] [r]

end RoleGraph
end AuditTrail
