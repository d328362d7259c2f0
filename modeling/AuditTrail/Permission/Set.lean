import AuditTrail.Permission

/-!
# Sets of permissions

A set is the list of its members in vocabulary order, so two sets with the same members are equal
and writing a set out needs no sorting.
-/

namespace AuditTrail

structure PermissionSet where
  toList : List Permission
  /-- A list with this property is determined by its members. -/
  ordered : toList = Permission.all.filter (toList.contains ·)
deriving DecidableEq

namespace PermissionSet

theorem filter_all_eq (holds : Permission → Bool) :
    Permission.all.filter holds =
      Permission.all.filter ((Permission.all.filter holds).contains ·) := by
  refine List.filter_congr fun p _ => ?_
  cases h : holds p <;> simp [List.mem_filter, Permission.mem_all, h]

def ofPred (holds : Permission → Bool) : PermissionSet :=
  ⟨Permission.all.filter holds, filter_all_eq holds⟩

instance : Membership Permission PermissionSet := ⟨fun s p => p ∈ s.toList⟩

instance (p : Permission) (s : PermissionSet) : Decidable (p ∈ s) :=
  inferInstanceAs (Decidable (p ∈ s.toList))

def empty : PermissionSet := ofPred fun _ => false

instance : EmptyCollection PermissionSet := ⟨empty⟩

instance : Inhabited PermissionSet := ⟨empty⟩

def isEmpty (s : PermissionSet) : Bool := s.toList.isEmpty

def insertAll (s : PermissionSet) (ps : List Permission) : PermissionSet :=
  ofPred fun p => p ∈ s ∨ p ∈ ps

def eraseAll (s : PermissionSet) (ps : List Permission) : PermissionSet :=
  ofPred fun p => p ∈ s ∧ p ∉ ps

def ofList (ps : List Permission) : PermissionSet := empty.insertAll ps

def names (s : PermissionSet) : List String := s.toList.map (·.name)

theorem mem_toList {p : Permission} {s : PermissionSet} : p ∈ s.toList ↔ p ∈ s := Iff.rfl

@[simp] theorem mem_ofPred {p : Permission} {holds : Permission → Bool} :
    p ∈ ofPred holds ↔ holds p = true := by
  simp [← mem_toList, ofPred, Permission.mem_all]

@[simp] theorem not_mem_empty (p : Permission) : p ∉ (∅ : PermissionSet) := by
  simp [EmptyCollection.emptyCollection, empty]

@[simp] theorem mem_insertAll {p : Permission} {s : PermissionSet} {ps : List Permission} :
    p ∈ s.insertAll ps ↔ p ∈ s ∨ p ∈ ps := by
  simp [insertAll]

@[simp] theorem mem_eraseAll {p : Permission} {s : PermissionSet} {ps : List Permission} :
    p ∈ s.eraseAll ps ↔ p ∈ s ∧ p ∉ ps := by
  simp [eraseAll]

@[simp] theorem mem_ofList {p : Permission} {ps : List Permission} : p ∈ ofList ps ↔ p ∈ ps := by
  have h : p ∉ empty := not_mem_empty p
  simp [ofList, h]

theorem ext {s t : PermissionSet} (h : ∀ p, p ∈ s ↔ p ∈ t) : s = t := by
  have hl : s.toList = t.toList := by
    rw [s.ordered, t.ordered]
    refine List.filter_congr fun p _ => ?_
    have := h p
    simp only [← mem_toList] at this
    simp [this]
  cases s
  cases t
  cases hl
  rfl

theorem isEmpty_iff {s : PermissionSet} : s.isEmpty = true ↔ ∀ p, p ∉ s := by
  simp [isEmpty, ← mem_toList, List.eq_nil_iff_forall_not_mem]

end PermissionSet
end AuditTrail
