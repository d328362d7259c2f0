import AuditTrail.Proofs.Whitelist.History
import Mathlib

/-!
# Entries that list nothing

A revocation takes an entry out that it leaves empty.  A grant makes an entry also when it lists no
permission, and then there is an entry from which nothing is exempt, until a later grant lists one
or a revocation takes it out.  So the resources with an entry are those of which something is exempt
and those whose last change is a grant of nothing (`mem_hollow_replay_iff`), and both kinds count
where a whitelist is asked whether it is empty and how large it is.
-/

namespace AuditTrail

namespace PermissionSet

variable {s : PermissionSet} {ps : List Permission}

theorem eq_empty_iff : s = ∅ ↔ ∀ p, p ∉ s := by
  constructor
  · rintro rfl
    exact not_mem_empty
  · intro h
    exact ext fun p => iff_of_false (h p) (not_mem_empty p)

theorem insertAll_eq_empty_iff : s.insertAll ps = ∅ ↔ s = ∅ ∧ ps = [] := by
  simp only [eq_empty_iff, mem_insertAll, not_or, forall_and, List.eq_nil_iff_forall_not_mem]

end PermissionSet

namespace Whitelist

variable {w : Whitelist} {c : Change} {history : List Change} {r q : Resource}
  {ps : List Permission}

/-- The resources from which some permission is exempt. -/
def exempt (w : Whitelist) : Set Resource := {r | ∃ p, w.permits r p = true}

/-- The resources with an entry that lists no permission. -/
def hollow (w : Whitelist) : Set Resource := {r | w.permissions? r = some ∅}

theorem mem_exempt_iff : r ∈ w.exempt ↔ ∃ p, w.permits r p = true := Iff.rfl

theorem mem_hollow_iff : r ∈ w.hollow ↔ w.permissions? r = some ∅ := Iff.rfl

theorem not_mem_exempt_iff : r ∉ w.exempt ↔ ∀ p, w.permits r p = false := by
  simp [mem_exempt_iff]

/-! ## Which resources have an entry -/

theorem permissions?_eq_none_iff : w.permissions? r = none ↔ r ∉ w.exempt ∧ r ∉ w.hollow := by
  rw [not_mem_exempt_iff, mem_hollow_iff]
  cases hset : w.permissions? r with
  | none => simp [permits, hset]
  | some set =>
    simp only [permits, hset, reduceCtorEq, false_iff, not_and, Option.some.injEq, not_not,
      decide_eq_false_iff_not]
    exact PermissionSet.eq_empty_iff.2

theorem disjoint_exempt_hollow (w : Whitelist) : Disjoint w.exempt w.hollow := by
  rw [Set.disjoint_left]
  rintro r ⟨p, hp⟩ hhollow
  obtain ⟨set, hset, hmem⟩ := permits_iff.1 hp
  rw [mem_hollow_iff, hset, Option.some.injEq] at hhollow
  rw [hhollow] at hmem
  exact PermissionSet.not_mem_empty p hmem

theorem isEmpty_iff : w.isEmpty = true ↔ w.exempt = ∅ ∧ w.hollow = ∅ := by
  have hnone : w.isEmpty = true ↔ ∀ r, w.permissions? r = none := by
    constructor
    · intro h r
      rw [eq_empty_of_isEmpty h]
      exact permissions?_empty r
    · intro h
      rw [show w = empty from ext fun r => (h r).trans (permissions?_empty r).symm]
      rfl
  simp only [hnone, permissions?_eq_none_iff, forall_and, Set.eq_empty_iff_forall_notMem]

theorem coe_resources (w : Whitelist) :
    (w.resources.toFinset : Set Resource) = w.exempt ∪ w.hollow := by
  ext r
  have hentry : r ∈ w.resources ↔ w.permissions? r ≠ none := by
    rw [mem_resources_iff, Option.ne_none_iff_exists']
  rw [Finset.mem_coe, List.mem_toFinset, hentry, Ne, permissions?_eq_none_iff, Set.mem_union]
  tauto

theorem size_eq (w : Whitelist) : w.size = w.exempt.ncard + w.hollow.ncard := by
  have hfinite : (w.exempt ∪ w.hollow).Finite := by
    rw [← coe_resources]
    exact Finset.finite_toSet _
  calc
    w.size = w.resources.toFinset.card := by
      rw [resources, List.toFinset_card_of_nodup Std.ExtTreeMap.nodup_keys,
        Std.ExtTreeMap.length_keys, size]
    _ = (w.exempt ∪ w.hollow).ncard := by rw [← Set.ncard_coe_finset, coe_resources]
    _ = w.exempt.ncard + w.hollow.ncard :=
      Set.ncard_union_eq w.disjoint_exempt_hollow (hfinite.subset Set.subset_union_left)
        (hfinite.subset Set.subset_union_right)

/-! ## One change -/

theorem mem_exempt_grant_iff : q ∈ (w.grant r ps).exempt ↔ q ∈ w.exempt ∨ q = r ∧ ps ≠ [] := by
  simp only [mem_exempt_iff, permits_grant_iff, exists_or, exists_and_left, Ne,
    List.eq_nil_iff_forall_not_mem, not_forall, not_not]

theorem mem_hollow_grant_iff : r ∈ (w.grant r ps).hollow ↔ ps = [] ∧ r ∉ w.exempt := by
  rw [mem_hollow_iff, permissions?_grant, if_pos rfl, Option.some.injEq,
    PermissionSet.insertAll_eq_empty_iff, not_mem_exempt_iff, and_comm]
  cases hset : w.permissions? r with
  | none => simp [permits, hset]
  | some set => simp [permits, hset, PermissionSet.eq_empty_iff]

/-- A revocation takes an entry out, if it is there and lists nothing afterwards. -/
theorem not_mem_hollow_revoke : r ∉ (w.revoke r ps).hollow := by
  rw [mem_hollow_iff, permissions?_revoke, if_pos rfl, Option.bind_eq_some_iff]
  rintro ⟨set, -, hleft⟩
  split at hleft
  · cases hleft
  · rename_i hsome
    rw [Option.some.injEq] at hleft
    rw [hleft] at hsome
    exact hsome rfl

theorem mem_hollow_on_of_ne (hr : r ≠ c.resource) : r ∈ (c.on w).hollow ↔ r ∈ w.hollow := by
  rw [mem_hollow_iff, mem_hollow_iff, permissions?_on_of_ne hr]

theorem mem_exempt_on_of_ne (hr : r ≠ c.resource) : r ∈ (c.on w).exempt ↔ r ∈ w.exempt := by
  rw [mem_exempt_iff, mem_exempt_iff]
  simp only [permits_on_of_ne hr]

/-! ## Histories -/

/-- The last change of a resource, whatever it lists. -/
def lastOn? (history : List Change) (r : Resource) : Option Change :=
  history.reverse.find? fun c => decide (c.resource = r)

theorem lastOn?_append_singleton (history : List Change) (c : Change) (r : Resource) :
    lastOn? (history ++ [c]) r = if c.resource = r then some c else lastOn? history r := by
  rw [lastOn?, List.reverse_append, List.reverse_singleton, List.singleton_append, List.find?_cons]
  by_cases h : c.resource = r <;> simp [h, lastOn?]

/-- An entry lists nothing exactly if its last change is a grant of nothing and what was granted
before, if anything, has been revoked. -/
theorem mem_hollow_replay_iff :
    r ∈ (replay history).hollow ↔
      lastOn? history r = some (.grant r []) ∧ r ∉ (replay history).exempt := by
  induction history using List.reverseRecOn with
  | nil =>
    have hnone : (replay []).permissions? r = none := permissions?_empty r
    simp [mem_hollow_iff, hnone, lastOn?]
  | append_singleton history c ih =>
    rw [replay_append_singleton, lastOn?_append_singleton]
    by_cases hr : c.resource = r
    · subst hr
      rw [if_pos rfl, Option.some.injEq]
      -- the last change decides alone, so that the induction hypothesis is not needed here
      cases c with
      | grant q ps =>
        rw [Change.on, Change.resource, mem_hollow_grant_iff, mem_exempt_grant_iff]
        simp only [Change.grant.injEq, true_and]
        tauto
      | revoke q ps =>
        rw [Change.on, Change.resource]
        simp [not_mem_hollow_revoke]
    · rw [if_neg hr, mem_hollow_on_of_ne (Ne.symm hr), mem_exempt_on_of_ne (Ne.symm hr)]
      exact ih

end Whitelist
end AuditTrail
