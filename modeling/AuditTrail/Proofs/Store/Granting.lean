import AuditTrail.Proofs.Store.Refinement

/-!
# What is loaded after a grant

A whitelist is built with resources as they are made and is read with normal ones, so it is read
back as it was built exactly if no resource of it has an empty segment.  A store in a file grants
and loads through its document, and the same condition decides whether what has been granted is what
is loaded (`read_back_iff`).
-/

namespace AuditTrail

namespace Whitelist

variable {w : Whitelist} {r : Resource} {ps : List Permission}

/-- The whitelists that can be built from nothing, one grant after another. -/
inductive Built : Whitelist → Prop
  | empty : Built ∅
  | grant {w : Whitelist} {r : Resource} (hw : Built w) (hr : r.Made) (ps : List Permission) :
      Built (w.grant r ps)

theorem Built.made (h : w.Built) : w.All Resource.Made := by
  induction h with
  | empty => exact all_empty
  | grant _ hr ps ih => exact ih.grant hr ps

theorem isNormal_iff : w.IsNormal ↔ ∀ r ∈ w.resources, ¬ r.HasEmptySegment := by
  constructor
  · intro h r hr
    obtain ⟨set, hset⟩ := mem_resources_iff.1 hr
    exact Resource.isNormal_iff.1 (h r set hset)
  · intro h r set hset
    exact Resource.isNormal_iff.2 (h r (mem_resources_iff.2 ⟨set, hset⟩))

end Whitelist

namespace FileStore

variable {s s' : FileStore} {role : Role} {r : Resource} {ps : List Permission}

/-- A grant that succeeds has read a document and written one, in which the grant has been made. -/
theorem readAll_of_grant (hr : r.Made) (h : s.grant role r ps = (.ok (), s')) :
    ∃ table, s.readAll = .ok table ∧ s'.readAll = .ok (granting role r ps table).reread := by
  rw [grant, update] at h
  split at h
  · rename_i table hread
    have hmade : WhitelistTable.All Resource.Made (granting role r ps table) :=
      (isNormal_of_readAll hread).made.granting hr ps
    exact ⟨table, hread, readAll_of_writeAll hmade h⟩
  · cases h

theorem load_of_grant (hr : r.Made) (h : s.grant role r ps = (.ok (), s')) :
    ∃ old : Whitelist, s.load role = .ok old ∧ old.IsNormal ∧
      s'.load role = .ok (old.grant r ps).reread := by
  obtain ⟨table, hread, hread'⟩ := readAll_of_grant hr h
  refine ⟨_, load_of_readAll hread role,
    WhitelistTable.All.getD (isNormal_of_readAll hread) role, ?_⟩
  rw [load_of_readAll hread' role, WhitelistTable.getD_reread, WhitelistTable.getD_granting,
    if_pos rfl]

/-- A whitelist is read back as it was built exactly if none of its resources has an empty segment.
A grant that succeeds adds to what is loaded the granted permissions and nothing else exactly if its
resource has none. -/
theorem read_back_iff {w : Whitelist} (hw : w.Built) (hr : r.Made) (hps : ps ≠ [])
    (hgrant : s.grant role r ps = (.ok (), s')) :
    (∃ v, Whitelist.ofText w.toJson.pretty = .ok v ∧
      (v = w ↔ ∀ r ∈ w.resources, ¬ r.HasEmptySegment)) ∧
      ∃ old new : Whitelist, s.load role = .ok old ∧ s'.load role = .ok new ∧
        ((∀ q p, new.permits q p = true ↔ old.permits q p = true ∨ q = r ∧ p ∈ ps) ↔
          ¬ r.HasEmptySegment) := by
  refine ⟨⟨w.reread, Whitelist.ofText_pretty hw.made, ?_⟩, ?_⟩
  · rw [Whitelist.reread_eq_self_iff hw.made, Whitelist.isNormal_iff]
  · obtain ⟨old, hold, hnormal, hnew⟩ := load_of_grant hr hgrant
    have hmade : (old.grant r ps).All Resource.Made := hnormal.made.grant hr ps
    refine ⟨old, _, hold, hnew, ?_⟩
    rw [← Resource.isNormal_iff]
    constructor
    · intro hexact
      obtain ⟨p, hp⟩ := List.exists_mem_of_ne_nil ps hps
      have hpermits := (hexact r p).2 (Or.inr ⟨rfl, hp⟩)
      -- whatever is read, only normal resources are in it
      obtain ⟨set, hset, -⟩ := Whitelist.permits_iff.1 hpermits
      exact Whitelist.isNormal_reread hmade r set hset
    · intro hr q p
      have hgranted : (old.grant r ps).IsNormal := Whitelist.All.grant hnormal hr ps
      rw [hgranted.reread_eq]
      exact Whitelist.permits_grant_iff

end FileStore

namespace Granted

open Fresh (store)
open SampleRole (auditor)

def ledger : Resource := .table "books" "ledger"

theorem made_ledger : ledger.Made := .table "books" "ledger"

def ledgerOnly : Whitelist := Whitelist.empty.grant ledger [.select]

/-- The keyspace that has no name. -/
def unnamed : Resource := .keyspace ""

def unnamedOnly : Whitelist := Whitelist.empty.grant unnamed [.select]

theorem exists_grant_eq_ok (r : Resource) :
    ∃ s', store.grant auditor r [.select] = (.ok (), s') := by
  have hread : store.readAll = .ok ∅ := by cbv
  obtain ⟨files, hwrite, -⟩ := FileStore.writeAll_of_isWritable Fresh.isWritable_store
    (FileStore.granting auditor r [.select] ∅)
  rw [FileStore.grant, FileStore.update, hread]
  exact ⟨_, hwrite⟩

theorem reread_unnamedOnly : unnamedOnly.reread = Whitelist.empty.grant .data [.select] := by
  decide +kernel

end Granted

open Granted Fresh SampleRole in
theorem FileStore.read_back_iff_ledger :
    Whitelist.ofText ledgerOnly.toJson.pretty = .ok ledgerOnly ∧
      ∃ s', store.grant auditor ledger [.select] = (.ok (), s') ∧
        ∃ old new : Whitelist, store.load auditor = .ok old ∧ s'.load auditor = .ok new ∧
          ∀ q p, new.permits q p = true ↔ old.permits q p = true ∨ q = ledger ∧ p ∈ [.select] := by
  have hbuilt : ledgerOnly.Built := .grant .empty made_ledger [.select]
  obtain ⟨s', hgrant⟩ := exists_grant_eq_ok ledger
  have hsome : [Permission.select] ≠ [] := List.cons_ne_nil _ _
  obtain ⟨⟨v, hread, heq⟩, old, new, hold, hnew, hexact⟩ :=
    FileStore.read_back_iff hbuilt made_ledger hsome hgrant
  constructor
  · rw [hread, heq.2 (by decide +kernel)]
  · exact ⟨s', hgrant, old, new, hold, hnew, hexact.2 (by decide +kernel)⟩

open Granted Fresh SampleRole in
/-- The keyspace that has no name is read as the root of all data, and so a grant on it becomes one
on all data. -/
theorem FileStore.unnamed_read_as_data :
    (unnamedOnly.Built ∧ ∃ v, Whitelist.ofText unnamedOnly.toJson.pretty = .ok v ∧
        v ≠ unnamedOnly) ∧
      ∃ s', store.grant auditor unnamed [.select] = (.ok (), s') ∧
        ∃ new : Whitelist, s'.load auditor = .ok new ∧ new.permits unnamed .select = false ∧
          new.permits .data .select = true := by
  have hunnamed : unnamed.Made := .keyspace ""
  have hbuilt : unnamedOnly.Built := .grant .empty hunnamed [.select]
  obtain ⟨s', hgrant⟩ := exists_grant_eq_ok unnamed
  obtain ⟨old, hold, -, hnew⟩ := FileStore.load_of_grant hunnamed hgrant
  have hnothing : store.load auditor = .ok ∅ := by cbv
  rw [hnothing, Except.ok.injEq] at hold
  rw [← hold] at hnew
  refine ⟨⟨hbuilt, _, Whitelist.ofText_pretty hbuilt.made, by decide +kernel⟩,
    s', hgrant, _, hnew, ?_⟩
  rw [show (∅ : Whitelist).grant unnamed [.select] = unnamedOnly from rfl, reread_unnamedOnly]
  decide +kernel

end AuditTrail
