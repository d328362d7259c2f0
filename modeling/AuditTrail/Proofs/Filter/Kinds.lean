import AuditTrail.Proofs.Decision.Coverage
import AuditTrail.Proofs.Filter.Chain
import AuditTrail.Proofs.World.Bystander
import AuditTrail.Store.Memory

/-!
# The kinds of filter

The settings choose one of four filters.  They are compared on every record and in every run: with
any store, cache and graph, with loads that fail and a graph that cannot be read, whatever other
tasks do.  Where a filter knows the answer from the list of users, it is given at once and nothing
is looked up.  Where the list does not settle it, the run is that of the filter that goes by the
roles alone (`kinds_compare`).
-/

namespace AuditTrail

open Config (FilterChoice Settings)

/-- What a leaf answers if the roles of a user are taken in this order. -/
def FilterLeaf.isFilteredIn (order : List Role → List Role) (record : Record) :
    FilterLeaf → Procedure Bool
  | .roles => Decision.decideIn order record
  | leaf => leaf.isFiltered record

namespace Filter

def isFilteredIn (order : List Role → List Role) (f : Filter) (record : Record) : Procedure Bool :=
  FilterTree.isFiltered (FilterLeaf.isFilteredIn order record) f

/-- In the order in which they come, this is what the filter asks. -/
theorem isFilteredIn_id (f : Filter) (record : Record) :
    f.isFilteredIn id record = f.isFiltered record := by
  have hleaf : FilterLeaf.isFilteredIn id record = FilterLeaf.isFiltered record := by
    funext leaf
    cases leaf <;> rfl
  rw [isFilteredIn, hleaf, isFiltered]

/-- The filter of these settings if they chose this kind. -/
def ofKind (s : Settings) (kind : FilterChoice) : Filter := ofSettings { s with filter := kind }

variable {s : Settings} {order : List Role → List Role} {record : Record}

/-! ## Answers -/

theorem isFilteredIn_none :
    (ofKind s .none).isFilteredIn order record = .done false := rfl

theorem isFilteredIn_yaml :
    (ofKind s .yaml).isFilteredIn order record =
      .done (decide (record.user.name ∈ s.whitelist)) := by
  show Procedure.done (s.whitelist.contains record.user.name) = _
  rw [List.contains_eq_mem]

theorem isFilteredIn_role :
    (ofKind s .role).isFilteredIn order record = Decision.decideIn order record := rfl

/-- The roles come after the list of users, and only if that does not settle it. -/
theorem isFilteredIn_yamlAndRole :
    (ofKind s .yamlAndRole).isFilteredIn order record =
      if record.user.name ∈ s.whitelist then .done true
      else Decision.decideIn order record := by
  have hrow : (ofKind s .yamlAndRole).isFilteredIn order record =
      [FilterLeaf.users s.whitelist, .roles].anyM (FilterLeaf.isFilteredIn order record) :=
    FilterTree.isFiltered_eq_anyM _ _
  have hroles : [FilterLeaf.roles].anyM (FilterLeaf.isFilteredIn order record) =
      Decision.decideIn order record :=
    (FilterTree.isFiltered_eq_anyM _ (.leaf FilterLeaf.roles)).symm
  rw [hrow, List.anyM_cons, hroles]
  show (if s.whitelist.contains record.user.name then pure true
    else Decision.decideIn order record) = _
  simp only [List.contains_eq_mem, decide_eq_true_eq]
  rfl

end Filter

/-- A task that prepares the store is over after one step.  The store has been asked once, and its
answer is that of the task. -/
theorem World.prepareStore_advance {σ : Type} [WhitelistStore σ] (w : World σ Unit) (id : TaskId) :
    ((w.resume id .prepareStore).advance id).result? id = some (WhitelistStore.setup w.store).1 ∧
      ((w.resume id .prepareStore).advance id).forget id =
        { w with store := (WhitelistStore.setup w.store).2 }.forget id := by
  have htask : (w.resume id .prepareStore).task? id = some (Task.start (.setup (.done ()))) := by
    rw [task?_resume, if_pos rfl]
    rfl
  have hadvance : (w.resume id .prepareStore).advance id =
      ({ w with store := (WhitelistStore.setup w.store).2 }.resume id .prepareStore).resume id
        (.ofResult (WhitelistStore.setup w.store).1) := by
    rw [advance, htask]
    simp only [Task.start, prepare, resume, setTask]
    cases (WhitelistStore.setup w.store).1 <;> rfl
  rw [hadvance]
  refine ⟨result?_resume_ofResult _ id _, ?_⟩
  rw [resume, forget_setTask, resume, forget_setTask]

namespace Filter

/-- How the filters of the four kinds compare on a record. -/
structure Compares (s : Settings) (order : List Role → List Role) (record : Record) : Prop where
  asked : ∀ kind, (ofKind s kind).isFilteredIn id record = (ofKind s kind).isFiltered record
  listed : record.user.name ∈ s.whitelist →
    ((ofKind s .yamlAndRole).isFilteredIn order record).AtOnce true
  /-- The two filters give the same answer or error at the same step, and at each step the cache,
  the store and all else are the same. -/
  unlisted : record.user.name ∉ s.whitelist →
    ∀ {σ : Type} [WhitelistStore σ] (w : World σ Bool) (id : TaskId)
      (actions : List (World.Action σ Bool)),
      (w.resume id ((ofKind s .yamlAndRole).isFilteredIn order record)).run actions =
        (w.resume id ((ofKind s .role).isFilteredIn order record)).run actions
  users : ((ofKind s .yaml).isFilteredIn order record).AtOnce
    (decide (record.user.name ∈ s.whitelist))
  nothing : ((ofKind s .none).isFilteredIn order record).AtOnce false
  prepared : ∀ kind, kind = .role ∨ kind = .yamlAndRole →
    ∀ {σ : Type} [WhitelistStore σ] (w : World σ Unit) (id : TaskId),
      ((w.resume id (ofKind s kind).setup).advance id).result? id =
          some (WhitelistStore.setup w.store).1 ∧
        ((w.resume id (ofKind s kind).setup).advance id).forget id =
          { w with store := (WhitelistStore.setup w.store).2 }.forget id
  unprepared : ∀ kind, kind = .none ∨ kind = .yaml → (ofKind s kind).setup.AtOnce ()

/-- The kinds compare in this way on any record, with any list of users and in whatever order the
roles come. -/
theorem kinds_compare (s : Settings) (order : List Role → List Role) (record : Record) :
    Compares s order record where
  asked kind := isFilteredIn_id (ofKind s kind) record
  listed hlisted := by
    rw [isFilteredIn_yamlAndRole, if_pos hlisted]
    exact Procedure.atOnce_done true
  unlisted hlisted := by
    intro σ _ w id actions
    rw [isFilteredIn_yamlAndRole, if_neg hlisted, isFilteredIn_role]
  users := by
    rw [isFilteredIn_yaml]
    exact Procedure.atOnce_done _
  nothing := by
    rw [isFilteredIn_none]
    exact Procedure.atOnce_done false
  prepared kind hkind := by
    intro σ _ w id
    rcases hkind with rfl | rfl
    · exact w.prepareStore_advance id
    · exact w.prepareStore_advance id
  unprepared kind hkind := by
    rcases hkind with rfl | rfl
    · exact Procedure.atOnce_done ()
    · exact Procedure.atOnce_done ()

namespace Outage

open Decision.Sample SampleRole

/-- The graph cannot be read. -/
def world : World MemoryStore Bool where
  graph := graph
  graphFault := some "unreachable"
  store := .empty
  cache := .new true
  sink := {}
  tasks := ∅

def listed : Settings := { whitelist := ["user"] }

def unlisted : Settings := { whitelist := ["root"] }

theorem waitersWait_world : world.WaitersWait := by
  intro role flight id hflight
  rw [world, Cache.new, Cache.flight?, Std.ExtTreeMap.getElem?_empty] at hflight
  cases hflight

theorem failed_roles :
    ((world.resume 0 ((ofKind unlisted .role).isFilteredIn id record)).run [.advance 0]).result? 0 =
      some (.error (.roleHierarchy "user" "unreachable")) := by decide +kernel

end Outage

open Outage Decision.Sample SampleRole in
/-- Without a graph a user on the list is answered.  For another, both filters by roles fail. -/
theorem kinds_compare_outage :
    ((world.resume 0 ((ofKind listed .yamlAndRole).isFilteredIn id record)).run
        [.advance 0]).result? 0 = some (.ok true) ∧
      ((world.resume 0 ((ofKind unlisted .yamlAndRole).isFilteredIn id record)).run
        [.advance 0]).result? 0 = some (.error (.roleHierarchy "user" "unreachable")) := by
  have hlisted : ((ofKind listed .yamlAndRole).isFilteredIn id record).AtOnce true :=
    (kinds_compare listed id record).listed (by decide)
  have hunlisted := (kinds_compare unlisted id record).unlisted (by decide) world 0 [.advance 0]
  have hfree : world.task? 0 = none := Option.isNone_iff_eq_none.1 (by decide +kernel)
  refine ⟨(hlisted world 0 [.advance 0] waitersWait_world hfree ?_).1, ?_⟩
  · intro a ha q hspawn
    cases (List.mem_singleton.1 ha).symm.trans hspawn
  · rw [hunlisted]
    exact failed_roles

end Filter
end AuditTrail
