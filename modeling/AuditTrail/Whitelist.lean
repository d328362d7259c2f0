import AuditTrail.Permission.Set
import AuditTrail.Resource

/-!
# Whitelists

The exemptions that are assigned to one role directly.  An entry only ever adds exemptions, and a
resource without an entry is not exempt from anything.
-/

namespace AuditTrail

structure Whitelist where
  entries : Std.ExtTreeMap Resource PermissionSet
deriving DecidableEq

namespace Whitelist

def empty : Whitelist := ⟨∅⟩

instance : EmptyCollection Whitelist := ⟨empty⟩

instance : Inhabited Whitelist := ⟨empty⟩

def permissions? (w : Whitelist) (r : Resource) : Option PermissionSet := w.entries[r]?

def permits (w : Whitelist) (r : Resource) (p : Permission) : Bool :=
  match w.permissions? r with
  | some set => decide (p ∈ set)
  | none => false

/-- Adds permissions to an entry, which exists from then on. -/
def grant (w : Whitelist) (r : Resource) (ps : List Permission) : Whitelist :=
  ⟨w.entries.insert r (((w.permissions? r).getD ∅).insertAll ps)⟩

/-- Takes permissions out of an entry, and the entry out of the whitelist when it is left empty. -/
def revoke (w : Whitelist) (r : Resource) (ps : List Permission) : Whitelist :=
  match w.permissions? r with
  | none => w
  | some set =>
    let left := set.eraseAll ps
    if left.isEmpty then ⟨w.entries.erase r⟩ else ⟨w.entries.insert r left⟩

def resources (w : Whitelist) : List Resource := w.entries.keys

def size (w : Whitelist) : Nat := w.entries.size

def isEmpty (w : Whitelist) : Bool := w.entries.isEmpty

@[simp] theorem permissions?_empty (r : Resource) : empty.permissions? r = none := by
  simp [permissions?, empty]

theorem permissions?_grant (w : Whitelist) (r s : Resource) (ps : List Permission) :
    (w.grant r ps).permissions? s =
      if r = s then some (((w.permissions? r).getD ∅).insertAll ps) else w.permissions? s := by
  simp only [permissions?, grant, Std.ExtTreeMap.getElem?_insert, Std.compare_eq_iff_eq]

theorem permits_congr {v w : Whitelist} {r : Resource} (h : v.permissions? r = w.permissions? r)
    (p : Permission) : v.permits r p = w.permits r p := by
  rw [permits, permits, h]

@[simp] theorem permits_empty (r : Resource) (p : Permission) : empty.permits r p = false := by
  rw [permits, permissions?_empty]

theorem permits_iff {w : Whitelist} {r : Resource} {p : Permission} :
    w.permits r p = true ↔ ∃ set, w.permissions? r = some set ∧ p ∈ set := by
  rw [permits]
  cases w.permissions? r <;> simp

theorem permits_grant_iff {w : Whitelist} {r q : Resource} {ps : List Permission} {p : Permission} :
    (w.grant r ps).permits q p = true ↔ w.permits q p = true ∨ q = r ∧ p ∈ ps := by
  rw [permits_iff, permissions?_grant]
  by_cases hrq : r = q
  · subst hrq
    rw [permits_iff]
    cases w.permissions? r <;> simp [PermissionSet.mem_insertAll, PermissionSet.not_mem_empty]
  · rw [if_neg hrq, permits_iff]
    simp [Ne.symm hrq]

theorem permissions?_revoke (w : Whitelist) (r s : Resource) (ps : List Permission) :
    (w.revoke r ps).permissions? s =
      if r = s then (w.permissions? r).bind fun set =>
        if (set.eraseAll ps).isEmpty then none else some (set.eraseAll ps)
      else w.permissions? s := by
  unfold revoke
  cases h : w.permissions? r with
  | none =>
    by_cases hrs : r = s
    · subst hrs
      simp [h]
    · simp [hrs]
  | some set =>
    cases hleft : (set.eraseAll ps).isEmpty <;> by_cases hrs : r = s <;>
      simp [hleft, hrs, permissions?, Std.ExtTreeMap.getElem?_insert,
        Std.ExtTreeMap.getElem?_erase]

/-- An entry that is taken out when it is left empty permits what it would if it had been kept. -/
theorem permits_revoke_iff {w : Whitelist} {r q : Resource} {ps : List Permission}
    {p : Permission} :
    (w.revoke r ps).permits q p = true ↔ w.permits q p = true ∧ ¬ (q = r ∧ p ∈ ps) := by
  rw [permits_iff, permits_iff, permissions?_revoke]
  by_cases hrq : r = q
  · subst hrq
    rw [if_pos rfl]
    cases w.permissions? r with
    | none => simp
    | some set =>
      cases hleft : (set.eraseAll ps).isEmpty with
      | true =>
        have hnone := PermissionSet.isEmpty_iff.1 hleft p
        rw [PermissionSet.mem_eraseAll] at hnone
        simpa [hleft] using hnone
      | false => simp [hleft]
  · rw [if_neg hrq]
    simp [Ne.symm hrq]

theorem ext {v w : Whitelist} (h : ∀ r, v.permissions? r = w.permissions? r) : v = w := by
  cases v
  cases w
  exact congrArg mk (Std.ExtTreeMap.ext_getElem? h)

theorem mem_resources_iff {w : Whitelist} {r : Resource} :
    r ∈ w.resources ↔ ∃ set, w.permissions? r = some set := by
  rw [resources, Std.ExtTreeMap.mem_keys, Std.ExtTreeMap.mem_iff_isSome_getElem?,
    Option.isSome_iff_exists]
  rfl

theorem eq_empty_of_isEmpty {w : Whitelist} (h : w.isEmpty = true) : w = ∅ := by
  refine ext fun r => ?_
  rw [permissions?, Std.ExtTreeMap.isEmpty_iff.1 h]
  exact (permissions?_empty r).symm

end Whitelist
end AuditTrail
