import AuditTrail.Role.Graph
import Mathlib.Data.List.Nodup
import Mathlib.Data.Prod.Lex
import Mathlib.Logic.Relation

/-!
# The closure of a role

The search keeps the roles that it has visited and a queue.  A turn takes the first role of the
queue, and what the role is granted comes to the end of the queue in any order (`Turn`); `visit`
takes such turns until the queue is empty.  Every role that the search has come upon is reached, and
every grant of a visited role leads to one that has been visited or is queued (`Explores`).  So the
roles visited in the end are exactly those that are reached by zero or more grants.
-/

namespace AuditTrail.RoleGraph

open Relation (ReflTransGen)

def Grants (g : RoleGraph) (grantee granted : Role) : Prop := g.holds grantee granted = true

/-- Zero or more grants in a row. -/
def Reaches (g : RoleGraph) : Role → Role → Prop := ReflTransGen g.Grants

theorem mem_grantedTo {g : RoleGraph} {a b : Role} : b ∈ g.grantedTo a ↔ g.Grants a b := by
  rw [grantedTo, Grants, holds, Std.ExtTreeSet.mem_toList, Std.ExtTreeSet.contains_iff_mem]

theorem grants_grant_iff {g : RoleGraph} {a b x y : Role} :
    (g.grant a b).Grants x y ↔ g.Grants x y ∨ (a = x ∧ b = y) := by
  rw [Grants, Grants, holds, holds, grant, Std.ExtTreeMap.getD_insert]
  by_cases hax : a = x
  · subst hax
    simp [Std.ExtTreeSet.contains_insert, or_comm]
  · simp [hax]

theorem mem_direct_of_grants {g : RoleGraph} {a b : Role} (h : g.Grants a b) : a ∈ g.direct := by
  refine Classical.byContradiction fun hkey => ?_
  rw [Grants, holds, Std.ExtTreeMap.getD_eq_fallback hkey, Std.ExtTreeSet.contains_empty] at h
  cases h

theorem grantedTo_of_not_mem {g : RoleGraph} {a : Role} (h : a ∉ g.direct) :
    g.grantedTo a = [] :=
  List.eq_nil_iff_forall_not_mem.2 fun _ hb => h (mem_direct_of_grants (mem_grantedTo.1 hb))

/-! ## Turns -/

structure Search where
  visited : List Role
  queue : List Role

namespace Search

/-- Nothing has been visited, and one role is queued. -/
def start (r : Role) : Search := ⟨[], [r]⟩

end Search

inductive Turn (g : RoleGraph) : Search → Search → Prop
  | skip {visited rest : List Role} {r : Role} (hr : r ∈ visited) :
    Turn g ⟨visited, r :: rest⟩ ⟨visited, rest⟩
  | visit {visited rest new : List Role} {r : Role} (hr : r ∉ visited)
    (hnew : new.Perm ((g.grantedTo r).filter (· ∉ visited ++ [r]))) :
    Turn g ⟨visited, r :: rest⟩ ⟨visited ++ [r], rest ++ new⟩

variable {g : RoleGraph} {r : Role} {s s' : Search}

theorem turns_visit (g : RoleGraph) (visited queue : List Role) :
    ReflTransGen g.Turn ⟨visited, queue⟩ ⟨g.visit visited queue, []⟩ := by
  fun_induction visit g visited queue with
  | case1 visited => exact .refl
  | case2 visited r rest hv ih => exact .head (.skip hv) ih
  | case3 visited r rest hv hk ih => exact .head (.visit hv (.refl _)) ih
  | case4 visited r rest hv hk ih =>
    have hnew : [].Perm ((g.grantedTo r).filter (· ∉ visited ++ [r])) := by
      rw [grantedTo_of_not_mem hk]
      exact .nil
    have hturn : g.Turn ⟨visited, r :: rest⟩ ⟨visited ++ [r], rest ++ []⟩ := .visit hv hnew
    rw [List.append_nil] at hturn
    exact .head hturn ih

/-- A search goes on until its queue is empty. -/
theorem queue_eq_nil_of_stuck (h : ∀ s', ¬ g.Turn s s') : s.queue = [] := by
  obtain ⟨visited, queue⟩ := s
  cases queue with
  | nil => rfl
  | cons r rest =>
    by_cases hr : r ∈ visited
    · exact absurd (.skip hr) (h _)
    · exact absurd (.visit hr (.refl _)) (h _)

/-- A turn leaves fewer grantees to visit, or as many and a shorter queue.  So no search goes on
forever. -/
theorem wellFounded_turn (g : RoleGraph) : WellFounded fun s' s => g.Turn s s' := by
  let left (s : Search) : Nat ×ₗ Nat := toLex ((g.unvisited s.visited).length, s.queue.length)
  refine Subrelation.wf (r := InvImage (· < ·) left) ?_ (InvImage.wf left wellFounded_lt)
  intro s' s hturn
  show left s' < left s
  rw [Prod.Lex.toLex_lt_toLex]
  cases hturn with
  | skip hr => exact Or.inr ⟨rfl, Nat.lt_succ_self _⟩
  | @visit visited rest new r hr hnew =>
    by_cases hkey : r ∈ g.direct
    · exact Or.inl (length_unvisited_lt hr hkey)
    · rw [grantedTo_of_not_mem hkey] at hnew
      obtain rfl : new = [] := hnew.eq_nil
      refine Or.inr ⟨congrArg List.length (unvisited_append_of_not_mem hkey), ?_⟩
      simp

/-! ## What a search comes upon -/

/-- Every grant of a visited role leads to one that has been visited or is queued. -/
def ClosedUpTo (g : RoleGraph) (visited queue : List Role) : Prop :=
  ∀ a ∈ visited, ∀ b, g.Grants a b → b ∈ visited ∨ b ∈ queue

/-- What a search that began with the role keeps. -/
structure Explores (g : RoleGraph) (r : Role) (s : Search) : Prop where
  sound : ∀ x, x ∈ s.visited ∨ x ∈ s.queue → g.Reaches r x
  closed : g.ClosedUpTo s.visited s.queue
  start : r ∈ s.visited ∨ r ∈ s.queue
  nodup : s.visited.Nodup

theorem Explores.begin (g : RoleGraph) (r : Role) : g.Explores r (.start r) where
  sound x hx := by
    rcases hx with hx | hx
    · cases hx
    · rw [List.mem_singleton.1 hx]
      exact .refl
  closed a ha := by cases ha
  start := Or.inr List.mem_cons_self
  nodup := List.nodup_nil

theorem Explores.turn (h : g.Explores r s) (hturn : g.Turn s s') : g.Explores r s' := by
  cases hturn with
  | @skip visited rest q hq =>
    have hkeep (x : Role) (hx : x ∈ visited ∨ x ∈ q :: rest) : x ∈ visited ∨ x ∈ rest := by
      rcases hx with hx | hx
      · exact Or.inl hx
      · rcases List.mem_cons.1 hx with rfl | hx
        · exact Or.inl hq
        · exact Or.inr hx
    refine ⟨fun x hx => h.sound x ?_, fun a ha b hab => hkeep b (h.closed a ha b hab),
      hkeep r h.start, h.nodup⟩
    exact hx.imp_right (List.mem_cons_of_mem q)
  | @visit visited rest new q hq hnew =>
    have hkeep (x : Role) (hx : x ∈ visited ∨ x ∈ q :: rest) :
        x ∈ visited ++ [q] ∨ x ∈ rest ++ new := by
      rcases hx with hx | hx
      · exact Or.inl (List.mem_append_left _ hx)
      · rcases List.mem_cons.1 hx with rfl | hx
        · exact Or.inl (by simp)
        · exact Or.inr (List.mem_append_left _ hx)
    have hreached : g.Reaches r q := h.sound q (Or.inr List.mem_cons_self)
    refine ⟨fun x hx => ?_, fun a ha b hab => ?_, hkeep r h.start, ?_⟩
    · rcases hx with hx | hx
      · rcases List.mem_append.1 hx with hx | hx
        · exact h.sound x (Or.inl hx)
        · rw [List.mem_singleton.1 hx]
          exact hreached
      · rcases List.mem_append.1 hx with hx | hx
        · exact h.sound x (Or.inr (List.mem_cons_of_mem q hx))
        · have hgranted := (List.mem_filter.1 (hnew.mem_iff.1 hx)).1
          exact hreached.tail (mem_grantedTo.1 hgranted)
    · rcases List.mem_append.1 ha with ha | ha
      · exact hkeep b (h.closed a ha b hab)
      · obtain rfl := List.mem_singleton.1 ha
        by_cases hb : b ∈ visited ++ [a]
        · exact Or.inl hb
        · refine Or.inr (List.mem_append_right _ (hnew.mem_iff.2 ?_))
          exact List.mem_filter.2 ⟨mem_grantedTo.2 hab, by simpa using hb⟩
    · exact List.nodup_append'.2 ⟨h.nodup, List.nodup_singleton q, by simpa using hq⟩

theorem Explores.turns (h : g.Explores r s) (hturns : ReflTransGen g.Turn s s') :
    g.Explores r s' := by
  induction hturns with
  | refl => exact h
  | tail _ hturn ih => exact ih.turn hturn

/-- Once the queue is empty, the visited roles are those that are reached. -/
theorem Explores.mem_iff (h : g.Explores r s) (hqueue : s.queue = []) {x : Role} :
    x ∈ s.visited ↔ g.Reaches r x := by
  have hvisited (y : Role) (hy : y ∈ s.visited ∨ y ∈ s.queue) : y ∈ s.visited := by
    rcases hy with hy | hy
    · exact hy
    · rw [hqueue] at hy
      cases hy
  constructor
  · intro hx
    exact h.sound x (Or.inl hx)
  · intro hrx
    induction hrx with
    | refl => exact hvisited r h.start
    | @tail a b _ hab ih => exact hvisited b (h.closed a ih b hab)

/-! ## The closure -/

theorem explores_closure (g : RoleGraph) (r : Role) : g.Explores r ⟨g.closure r, []⟩ :=
  (Explores.begin g r).turns (turns_visit g [] [r])

theorem mem_closure_iff {x : Role} : x ∈ g.closure r ↔ g.Reaches r x :=
  (explores_closure g r).mem_iff rfl

theorem nodup_closure (g : RoleGraph) (r : Role) : (g.closure r).Nodup :=
  (explores_closure g r).nodup

/-- A graph with more grants leads to more roles. -/
theorem Reaches.mono {g h : RoleGraph} {a b : Role} (hgrants : ∀ x y, g.Grants x y → h.Grants x y)
    (hab : g.Reaches a b) : h.Reaches a b := ReflTransGen.mono hgrants a b hab

end AuditTrail.RoleGraph
