import AuditTrail.Proofs.Role.Sample
import AuditTrail.Proofs.Store.Document
import AuditTrail.Store.Memory
import Mathlib

/-!
# A store in a file is a map

By what it returns, a store in a file cannot be told from a plain map of roles to whitelists, and as
far as both can be asked the same, it cannot be told from a store in memory.  Each call leaves a
document that holds what the map holds (`Holds.perform`), and the runs follow by induction.
-/

namespace AuditTrail

/-- What can be asked of every store. -/
inductive StoreCall where
  | setup
  | grant (role : Role) (r : Resource) (ps : List Permission)
  | load (role : Role)

/-- What can be asked of a store in a file. -/
inductive FileStoreCall where
  | common (call : StoreCall)
  | saveRole (role : Role) (w : Whitelist)

/-- What a call returns.  Only a load returns a whitelist. -/
abbrev StoreReply := Except Error (Option Whitelist)

def StoreCall.IsNormal : StoreCall → Prop
  | grant _ r _ => r.IsNormal
  | setup | load _ => True

def FileStoreCall.IsNormal : FileStoreCall → Prop
  | common call => call.IsNormal
  | saveRole _ w => w.IsNormal

def FileStore.perform (s : FileStore) : FileStoreCall → StoreReply × FileStore
  | .common .setup => (s.setup.1.map fun _ => none, s.setup.2)
  | .common (.grant role r ps) =>
    ((s.grant role r ps).1.map fun _ => none, (s.grant role r ps).2)
  | .common (.load role) => ((s.load role).map some, s)
  | .saveRole role w => ((s.saveRole role w).1.map fun _ => none, (s.saveRole role w).2)

def FileStore.replies (s : FileStore) : List FileStoreCall → List StoreReply
  | [] => []
  | call :: calls => (s.perform call).1 :: (s.perform call).2.replies calls

def MemoryStore.perform (s : MemoryStore) : StoreCall → StoreReply × MemoryStore
  | .setup => ((WhitelistStore.setup s).1.map fun _ => none, (WhitelistStore.setup s).2)
  | .grant role r ps => (.ok none, s.grant role r ps)
  | .load role => (.ok (some (s.load role).1), (s.load role).2)

def MemoryStore.replies (s : MemoryStore) : List StoreCall → List StoreReply
  | [] => []
  | call :: calls => (s.perform call).1 :: (s.perform call).2.replies calls

/-- Whitelists by role, with the empty one for a role of which nothing is known. -/
abbrev WhitelistMap := Role → Whitelist

namespace WhitelistMap

def perform (m : WhitelistMap) : FileStoreCall → Option Whitelist × WhitelistMap
  | .common .setup => (none, m)
  | .common (.grant role r ps) => (none, Function.update m role ((m role).grant r ps))
  | .common (.load role) => (some (m role), m)
  | .saveRole role w => (none, Function.update m role w)

def replies (m : WhitelistMap) : List FileStoreCall → List (Option Whitelist)
  | [] => []
  | call :: calls => (m.perform call).1 :: replies (m.perform call).2 calls

theorem update_eq_ite (m : WhitelistMap) (role other : Role) (w : Whitelist) :
    Function.update m role w other = if role = other then w else m other := by
  rw [Function.update_apply]
  simp only [eq_comm]

end WhitelistMap

/-! ## Tables -/

namespace WhitelistTable

theorem getD_granting (t : WhitelistTable) (role other : Role) (r : Resource)
    (ps : List Permission) :
    (FileStore.granting role r ps t).getD other ∅ =
      if role = other then (t.getD role ∅).grant r ps else t.getD other ∅ := by
  rw [FileStore.granting, Std.ExtTreeMap.getD_insert]
  simp only [Std.compare_eq_iff_eq]

/-- A whitelist that is not kept because it is empty is read as the empty one all the same. -/
theorem getD_saving (t : WhitelistTable) (role other : Role) (w : Whitelist) :
    (FileStore.saving role w t).getD other ∅ = if role = other then w else t.getD other ∅ := by
  rw [FileStore.saving]
  split
  · rename_i hempty
    rw [Std.ExtTreeMap.getD_erase]
    simp only [Std.compare_eq_iff_eq]
    rw [Whitelist.eq_empty_of_isEmpty hempty]
  · rw [Std.ExtTreeMap.getD_insert]
    simp only [Std.compare_eq_iff_eq]

/-- What each role holds in the table. -/
def toMap (t : WhitelistTable) : WhitelistMap := fun role => t.getD role ∅

theorem toMap_granting (t : WhitelistTable) (role : Role) (r : Resource) (ps : List Permission) :
    toMap (FileStore.granting role r ps t) =
      Function.update (toMap t) role ((toMap t role).grant r ps) := by
  funext other
  rw [WhitelistMap.update_eq_ite]
  exact getD_granting t role other r ps

theorem toMap_saving (t : WhitelistTable) (role : Role) (w : Whitelist) :
    toMap (FileStore.saving role w t) = Function.update (toMap t) role w := by
  funext other
  rw [WhitelistMap.update_eq_ite]
  exact getD_saving t role other w

end WhitelistTable

namespace FileStore

variable {s : FileStore} {m m' : WhitelistMap}

/-- The document holds what the map does, and another can be written. -/
structure Holds (s : FileStore) (m : WhitelistMap) : Prop where
  table : ∃ table, s.readAll = .ok table ∧ WhitelistTable.IsNormal table ∧
    ∀ role, table.getD role ∅ = m role
  writable : s.IsWritable

theorem holds_writeAll {table : WhitelistTable} (h : s.IsWritable)
    (hnormal : WhitelistTable.IsNormal table) (hm : ∀ role, table.getD role ∅ = m role) :
    (s.writeAll table).1 = .ok () ∧ Holds (s.writeAll table).2 m := by
  obtain ⟨files, hwrite, hread, hagain⟩ := writeAll_of_isWritable h table
  rw [hwrite]
  exact ⟨rfl, ⟨table, readAll_of_readText hread hnormal, hnormal, hm⟩, hagain⟩

theorem Holds.update {change : WhitelistTable → WhitelistTable} (h : s.Holds m)
    (hnormal : ∀ table, WhitelistTable.IsNormal table → WhitelistTable.IsNormal (change table))
    (hm : ∀ table : WhitelistTable, (∀ role, table.getD role ∅ = m role) →
      ∀ role, (change table).getD role ∅ = m' role) :
    (s.update change).1 = .ok () ∧ Holds (s.update change).2 m' := by
  obtain ⟨table, hread, htable, hholds⟩ := h.table
  rw [FileStore.update, hread]
  exact holds_writeAll h.writable (hnormal table htable) (hm table hholds)

theorem Holds.load (h : s.Holds m) (role : Role) : s.load role = .ok (m role) := by
  obtain ⟨table, hread, -, hholds⟩ := h.table
  rw [FileStore.load, hread, ← hholds role]
  rfl

theorem Holds.setup (h : s.Holds m) : s.setup.1 = .ok () ∧ Holds s.setup.2 m := by
  obtain ⟨table, hread, htable, hholds⟩ := h.table
  have hread' := hread
  -- a document is written only where none is, and there the table that is read is empty
  rw [readAll] at hread
  split at hread
  · rename_i habsent
    rw [Except.ok.injEq] at hread
    rw [setup_of_absent (FileTree.exists?_of_readText_notFound habsent)]
    refine holds_writeAll h.writable WhitelistTable.all_empty fun role => ?_
    rw [hread]
    exact hholds role
  · cases hread
  · rename_i text htext
    rw [setup_of_there (FileTree.exists?_of_readText htext), hread']
    exact ⟨rfl, h⟩

/-- Each call succeeds, returns what the map does, and leaves what the map holds then. -/
theorem Holds.perform {call : FileStoreCall} (h : s.Holds m) (hcall : call.IsNormal) :
    (s.perform call).1 = .ok (m.perform call).1 ∧ Holds (s.perform call).2 (m.perform call).2 := by
  cases call with
  | common call =>
    cases call with
    | setup =>
      obtain ⟨hdone, hafter⟩ := h.setup
      exact ⟨by rw [FileStore.perform, hdone]; rfl, hafter⟩
    | grant role r ps =>
      have hm (table : WhitelistTable) (htable : ∀ role, table.getD role ∅ = m role)
          (other : Role) : (granting role r ps table).getD other ∅ =
            Function.update m role ((m role).grant r ps) other := by
        rw [← show WhitelistTable.toMap table = m from funext htable]
        exact congrFun (WhitelistTable.toMap_granting table role r ps) other
      obtain ⟨hdone, hafter⟩ :=
        h.update (fun _ htable => WhitelistTable.All.granting htable hcall ps) hm
      exact ⟨by rw [FileStore.perform, FileStore.grant, hdone]; rfl, hafter⟩
    | load role => exact ⟨by rw [FileStore.perform, h.load]; rfl, h⟩
  | saveRole role w =>
    have hm (table : WhitelistTable) (htable : ∀ role, table.getD role ∅ = m role)
        (other : Role) : (saving role w table).getD other ∅ = Function.update m role w other := by
      rw [← show WhitelistTable.toMap table = m from funext htable]
      exact congrFun (WhitelistTable.toMap_saving table role w) other
    obtain ⟨hdone, hafter⟩ := h.update (fun _ htable => WhitelistTable.All.saving htable hcall) hm
    exact ⟨by rw [FileStore.perform, FileStore.saveRole, hdone]; rfl, hafter⟩

theorem Holds.replies {calls : List FileStoreCall} (h : s.Holds m)
    (hcalls : ∀ call ∈ calls, call.IsNormal) :
    s.replies calls = (m.replies calls).map .ok := by
  induction calls generalizing s m with
  | nil => rfl
  | cons call calls ih =>
    rw [List.forall_mem_cons] at hcalls
    obtain ⟨hreply, hafter⟩ := h.perform hcalls.1
    rw [FileStore.replies, WhitelistMap.replies, List.map_cons, hreply, ih hafter hcalls.2]

/-- Nothing at the path, or nothing in it but white space. -/
def IsBlank (s : FileStore) : Prop :=
  s.files.readText s.path = .error .notFound ∨
    ∃ text, s.files.readText s.path = .ok text ∧ Text.isAllBlank text = true

theorem holds_of_isBlank (h : s.IsBlank) (hwritable : s.IsWritable) : s.Holds fun _ => ∅ := by
  have hread : s.readAll = .ok ∅ := by
    rcases h with habsent | ⟨text, htext, hblank⟩
    · rw [readAll, habsent]
    · rw [readAll, htext]
      exact if_pos hblank
  exact ⟨⟨∅, hread, WhitelistTable.all_empty, fun role => by simp⟩, hwritable⟩

end FileStore

/-! ## A store in memory -/

namespace MemoryStore

theorem whitelistOf_grant (s : MemoryStore) (role other : Role) (r : Resource)
    (ps : List Permission) :
    (s.grant role r ps).whitelistOf other =
      Function.update s.whitelistOf role ((s.whitelistOf role).grant r ps) other := by
  rw [whitelistOf, grant, Std.ExtTreeMap.getD_insert, WhitelistMap.update_eq_ite]
  simp only [Std.compare_eq_iff_eq]
  rfl

theorem replies_eq_map (s : MemoryStore) (calls : List StoreCall) :
    s.replies calls =
      (WhitelistMap.replies s.whitelistOf (calls.map .common)).map .ok := by
  induction calls generalizing s with
  | nil => rfl
  | cons call calls ih =>
    rw [replies, ih]
    cases call with
    | setup => rfl
    | grant role r ps =>
      have hafter : (s.grant role r ps).whitelistOf =
          Function.update s.whitelistOf role ((s.whitelistOf role).grant r ps) :=
        funext fun other => whitelistOf_grant s role other r ps
      rw [perform, hafter]
      rfl
    | load role => rfl

end MemoryStore

namespace FileStore

variable {s : FileStore}

/-- On a store that can write and begins with nothing, every call succeeds and every load returns
what a map would hold after the same calls.  A store in memory that begins with nothing returns the
same. -/
theorem refines_map (hblank : s.IsBlank) (hwritable : s.IsWritable) :
    (∀ calls : List FileStoreCall, (∀ call ∈ calls, call.IsNormal) →
      s.replies calls = (WhitelistMap.replies (fun _ => ∅) calls).map .ok) ∧
      ∀ calls : List StoreCall, (∀ call ∈ calls, call.IsNormal) →
        s.replies (calls.map .common) = MemoryStore.empty.replies calls := by
  have hholds := holds_of_isBlank hblank hwritable
  refine ⟨fun calls hcalls => hholds.replies hcalls, fun calls hcalls => ?_⟩
  have hcommon : ∀ call ∈ calls.map FileStoreCall.common, call.IsNormal := by
    intro call hcall
    obtain ⟨common, hmem, rfl⟩ := List.mem_map.1 hcall
    exact hcalls common hmem
  have hempty : MemoryStore.empty.whitelistOf = fun _ => ∅ := by
    funext role
    simp [MemoryStore.empty, MemoryStore.whitelistOf]
  rw [hholds.replies hcommon, MemoryStore.replies_eq_map, hempty]

end FileStore

namespace Fresh

open SampleRole

/-- A store in a tree that holds nothing, not even the directory of its document. -/
def store : FileStore := ⟨⟨["state", "roles.json"]⟩, .empty⟩

theorem isWritable_store : store.IsWritable := show (store.writeAll ∅).1 = .ok () by cbv

def grants : List StoreCall :=
  [.setup, .grant nameless .data [], .load nameless, .grant nameless .data [.select],
    .load nameless, .load auditor]

def calls : List FileStoreCall :=
  grants.map .common ++
    [.saveRole auditor (Whitelist.empty.grant .roles [.create]), .common (.load auditor),
      .saveRole auditor ∅, .common (.load auditor)]

theorem isNormal_grants : ∀ call ∈ grants, call.IsNormal := by
  have hdata : Resource.data.IsNormal := ⟨"/data/", by decide +kernel⟩
  simp only [grants, List.forall_mem_cons]
  exact ⟨trivial, hdata, trivial, hdata, trivial, trivial, by simp⟩

theorem isNormal_calls : ∀ call ∈ calls, call.IsNormal := by
  have hroles : Resource.roles.IsNormal := ⟨"roles", by decide +kernel⟩
  refine List.forall_mem_append.2 ⟨fun call hcall => ?_, ?_⟩
  · obtain ⟨common, hmem, rfl⟩ := List.mem_map.1 hcall
    exact isNormal_grants common hmem
  · simp only [List.forall_mem_cons]
    exact ⟨Whitelist.all_empty.grant hroles _, trivial, Whitelist.all_empty, trivial,
      by simp⟩

end Fresh

open Fresh SampleRole in
theorem FileStore.refines_map_fresh :
    store.replies calls =
        [none, none, some (Whitelist.empty.grant .data []), none,
          some (Whitelist.empty.grant .data [.select]), some ∅, none,
          some (Whitelist.empty.grant .roles [.create]), none, some ∅].map .ok ∧
      store.replies (grants.map .common) = MemoryStore.empty.replies grants := by
  have hblank : store.IsBlank := Or.inl (by cbv)
  obtain ⟨hmap, hmemory⟩ := FileStore.refines_map hblank isWritable_store
  refine ⟨?_, hmemory grants isNormal_grants⟩
  rw [hmap calls isNormal_calls]
  exact congrArg (List.map Except.ok) (by decide +kernel)

end AuditTrail
