import AuditTrail.Proofs.Store.Lockout
import AuditTrail.Proofs.Whitelist.Entries

/-!
# What saving a role keeps

A role whose whitelist is empty is left out of the document.  A whitelist from which nothing is
exempt need not be empty: a grant of nothing leaves an entry in it, and with it the role in the
document (`entries_of_history`, `nothing_granted_kept`).
-/

namespace AuditTrail

namespace Whitelist

variable {P : Resource → Prop} {w : Whitelist} {r : Resource} {c : Change} {history : List Change}

theorem All.revoke (h : w.All P) (r : Resource) (ps : List Permission) : (w.revoke r ps).All P := by
  intro q set hset
  rw [permissions?_revoke] at hset
  split at hset
  · rename_i hrq
    obtain ⟨before, hbefore, -⟩ := Option.bind_eq_some_iff.1 hset
    rw [hrq] at hbefore
    exact h q before hbefore
  · exact h q set hset

theorem All.replay (h : ∀ c ∈ history, P c.resource) : (replay history).All P := by
  induction history using List.reverseRecOn with
  | nil => exact all_empty
  | append_singleton history c ih =>
    obtain ⟨hhistory, hc⟩ := List.forall_mem_append.1 h
    have hkept := ih hhistory
    have hresource := hc c List.mem_cons_self
    rw [replay_append_singleton]
    cases c with
    | grant r ps => exact hkept.grant hresource ps
    | revoke r ps => exact hkept.revoke r ps

end Whitelist

namespace FileStore

variable {s : FileStore} {role : Role} {w : Whitelist} {table : WhitelistTable}

theorem mem_saving_iff : role ∈ saving role w table ↔ w.isEmpty = false := by
  rw [saving]
  split
  · rename_i hempty
    simp [Std.ExtTreeMap.mem_erase, hempty]
  · rename_i hsome
    simpa [Std.ExtTreeMap.mem_insert] using hsome

/-- A whitelist is saved, and its role is in the document then unless the whitelist is empty. -/
theorem IsReadable.saveRole (h : s.IsReadable) (hwritable : s.IsWritable)
    (hw : w.All Resource.Made) (role : Role) :
    ∃ s' table, s.saveRole role w = (.ok (), s') ∧ s'.readAll = .ok table ∧
      (role ∈ table ↔ w.isEmpty = false) := by
  obtain ⟨old, hread⟩ := isReadable_iff.1 h
  have hmade : WhitelistTable.All Resource.Made (saving role w old) :=
    (isNormal_of_readAll hread).made.saving hw
  obtain ⟨files, hwrite, -, -⟩ := writeAll_of_isWritable hwritable (saving role w old)
  refine ⟨_, _, ?_, readAll_of_writeAll hmade hwrite, ?_⟩
  · rw [FileStore.saveRole, update, hread]
    exact hwrite
  · rw [WhitelistTable.reread, Std.ExtTreeMap.mem_map, mem_saving_iff]

end FileStore

namespace Whitelist

/-- After any grants and revocations, a resource has an entry that lists nothing exactly if its last
change is a grant of nothing and no permission is exempt from it.  These entries count: a whitelist
is empty exactly if it has none of them and nothing is exempt, saving it removes the role in the
same case, and its size is the number of the resources of either kind. -/
theorem entries_of_history (history : List Change) :
    (∀ r, r ∈ (replay history).hollow ↔
        lastOn? history r = some (.grant r []) ∧ r ∉ (replay history).exempt) ∧
      ((replay history).isEmpty = true ↔
        (replay history).exempt = ∅ ∧ (replay history).hollow = ∅) ∧
      (replay history).size = (replay history).exempt.ncard + (replay history).hollow.ncard ∧
      ∀ s : FileStore, s.IsReadable → s.IsWritable → (∀ c ∈ history, c.resource.Made) → ∀ role,
        ∃ s' table, s.saveRole role (replay history) = (.ok (), s') ∧ s'.readAll = .ok table ∧
          (role ∉ table ↔ (replay history).exempt = ∅ ∧ (replay history).hollow = ∅) := by
  refine ⟨fun r => mem_hollow_replay_iff, isEmpty_iff, size_eq _,
    fun s hreadable hwritable hmade role => ?_⟩
  obtain ⟨s', table, hsave, hread, hmem⟩ :=
    hreadable.saveRole hwritable (All.replay hmade) role
  refine ⟨s', table, hsave, hread, ?_⟩
  rw [hmem, Bool.not_eq_false, isEmpty_iff]

namespace Vacated

open Fresh (store)
open SampleRole (auditor)
open Granted (ledger)

/-- The entry that lists nothing is taken out by a revocation of nothing. -/
def changes : List Change :=
  [.grant .data [], .grant ledger [.select], .revoke .data [], .revoke ledger [.select]]

theorem made_changes : ∀ c ∈ changes, c.resource.Made := by
  simp only [changes, List.forall_mem_cons]
  exact ⟨.data, Granted.made_ledger, .data, Granted.made_ledger, by simp⟩

/-- What is left when the first change is all there is. -/
def granted : Whitelist := replay [.grant .data []]

theorem isReadable_store : store.IsReadable := .inl (by cbv)

end Vacated

open Vacated Fresh SampleRole in
theorem entries_of_history_vacated :
    .data ∉ (replay changes).hollow ∧ (replay changes).size = 0 ∧
      ∃ s' table, store.saveRole auditor (replay changes) = (.ok (), s') ∧
        s'.readAll = .ok table ∧ auditor ∉ table := by
  obtain ⟨hhollow, hempty, hsize, hsave⟩ := entries_of_history changes
  have hnothing := hempty.1 (show (replay changes).isEmpty = true by decide +kernel)
  obtain ⟨s', table, hsaved, hread, hmem⟩ :=
    hsave store isReadable_store isWritable_store made_changes auditor
  refine ⟨fun hdata => ?_, ?_, s', table, hsaved, hread, hmem.2 hnothing⟩
  · have hlast : lastOn? changes .data = some (.revoke .data []) := by decide
    rw [hhollow, hlast] at hdata
    cases hdata.1
  · rw [hsize, hnothing.1, hnothing.2, Set.ncard_empty]

open Vacated Fresh SampleRole in
/-- A grant of nothing leaves an entry from which nothing is exempt.  The whitelist counts it, is
not empty, and keeps its role in the document. -/
theorem nothing_granted_kept :
    .data ∈ granted.hollow ∧ (∀ r p, granted.permits r p = false) ∧ granted.isEmpty = false ∧
      granted.size = 1 ∧ ∃ s' table, store.saveRole auditor granted = (.ok (), s') ∧
        s'.readAll = .ok table ∧ auditor ∈ table := by
  have hmade : granted.All Resource.Made :=
    All.replay fun c hc => by
      rw [List.mem_singleton] at hc
      subst hc
      exact .data
  have hnothing (r : Resource) : r ∉ granted.exempt := by
    rw [show granted = empty.grant .data [] from rfl, mem_exempt_grant_iff]
    simp [mem_exempt_iff]
  have hsome : granted.isEmpty = false := by decide +kernel
  obtain ⟨s', table, hsaved, hread, hmem⟩ :=
    isReadable_store.saveRole isWritable_store hmade auditor
  exact ⟨mem_hollow_replay_iff.2 ⟨rfl, hnothing .data⟩, fun r => not_mem_exempt_iff.1 (hnothing r),
    hsome, by decide +kernel, s', table, hsaved, hread, hmem.2 hsome⟩

end Whitelist
end AuditTrail
