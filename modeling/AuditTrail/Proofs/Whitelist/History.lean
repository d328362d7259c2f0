import AuditTrail.Store.Memory
import Mathlib.Data.List.Induction

/-!
# A whitelist and its history

A whitelist is what has become of the empty one by grants and revocations, and a change is about one
resource.  What it permits on a resource is decided by the last change that names the permission
there (`permits_of_history`).  An entry may be taken out meanwhile, when a revocation leaves it
empty, and made again by the next grant.

A store in memory keeps a whitelist for each role.  That is the one which the changes of the role
give, those before its last removal left out (`MemoryStore.whitelistOf_replay`).
-/

namespace AuditTrail

namespace Whitelist

inductive Change where
  | grant (r : Resource) (ps : List Permission)
  | revoke (r : Resource) (ps : List Permission)
deriving DecidableEq, Repr

namespace Change

def resource : Change → Resource
  | grant r _ | revoke r _ => r

def permissions : Change → List Permission
  | grant _ ps | revoke _ ps => ps

def names (c : Change) (r : Resource) (p : Permission) : Bool :=
  decide (c.resource = r ∧ p ∈ c.permissions)

def on (w : Whitelist) : Change → Whitelist
  | grant r ps => w.grant r ps
  | revoke r ps => w.revoke r ps

end Change

def replay (history : List Change) : Whitelist := history.foldl Change.on empty

def lastNaming? (history : List Change) (r : Resource) (p : Permission) : Option Change :=
  history.reverse.find? fun c => c.names r p

variable {w : Whitelist} {c : Change} {history : List Change} {r : Resource} {p : Permission}

/-! ## One change -/

/-- A change leaves the entries of other resources alone. -/
theorem permissions?_on_of_ne (hr : r ≠ c.resource) :
    (c.on w).permissions? r = w.permissions? r := by
  have hcr : ¬ c.resource = r := Ne.symm hr
  cases c with
  | grant q ps => exact (permissions?_grant w q r ps).trans (if_neg hcr)
  | revoke q ps => exact (permissions?_revoke w q r ps).trans (if_neg hcr)

theorem permits_on_of_ne (hr : r ≠ c.resource) (p : Permission) :
    (c.on w).permits r p = w.permits r p :=
  permits_congr (permissions?_on_of_ne hr) p

theorem permits_on_of_names (h : c.names r p = true) :
    (c.on w).permits r p = true ↔ ∃ ps, c = .grant r ps := by
  obtain ⟨rfl, hp⟩ := of_decide_eq_true h
  cases c with
  | grant q ps =>
    refine ⟨fun _ => ⟨ps, rfl⟩, fun _ => permits_grant_iff.2 (.inr ⟨rfl, hp⟩)⟩
  | revoke q ps =>
    constructor
    · intro hpermits
      exact absurd ⟨rfl, hp⟩ (permits_revoke_iff.1 hpermits).2
    · rintro ⟨ps', hps'⟩
      cases hps'

theorem permits_on_of_not_names (h : c.names r p = false) :
    (c.on w).permits r p = w.permits r p := by
  by_cases hr : r = c.resource
  · subst hr
    have hp : p ∉ c.permissions := fun hp => of_decide_eq_false h ⟨rfl, hp⟩
    refine Bool.eq_iff_iff.2 ?_
    cases c with
    | grant q ps => exact permits_grant_iff.trans (or_iff_left fun hps => hp hps.2)
    | revoke q ps => exact permits_revoke_iff.trans (and_iff_left fun hps => hp hps.2)
  · exact permits_on_of_ne hr p

/-! ## Histories -/

theorem replay_append_singleton (history : List Change) (c : Change) :
    replay (history ++ [c]) = c.on (replay history) := by
  rw [replay, List.foldl_append]
  rfl

theorem lastNaming?_append_singleton (history : List Change) (c : Change) (r : Resource)
    (p : Permission) :
    lastNaming? (history ++ [c]) r p =
      if c.names r p then some c else lastNaming? history r p := by
  rw [lastNaming?, List.reverse_append, List.reverse_singleton, List.singleton_append,
    List.find?_cons]
  cases c.names r p <;> rfl

theorem permits_replay_iff :
    (replay history).permits r p = true ↔ ∃ ps, lastNaming? history r p = some (.grant r ps) := by
  induction history using List.reverseRecOn with
  | nil =>
    rw [show (replay []).permits r p = false from permits_empty r p]
    simp [lastNaming?]
  | append_singleton history c ih =>
    rw [replay_append_singleton, lastNaming?_append_singleton]
    cases hnames : c.names r p with
    | true =>
      rw [if_pos rfl, permits_on_of_names hnames]
      simp
    | false =>
      rw [if_neg Bool.false_ne_true, permits_on_of_not_names hnames]
      exact ih

/-- After any grants and revocations, a permission is permitted on a resource exactly if the last
change that names both is a grant.  Each change leaves all other resources as they were. -/
theorem permits_of_history (history : List Change) :
    (∀ r p, (replay history).permits r p = true ↔
        ∃ ps, lastNaming? history r p = some (.grant r ps)) ∧
      ∀ c r, r ≠ c.resource →
        (replay (history ++ [c])).permissions? r = (replay history).permissions? r ∧
          ∀ p, (replay (history ++ [c])).permits r p = (replay history).permits r p := by
  refine ⟨fun r p => permits_replay_iff, fun c r hr => ?_⟩
  rw [replay_append_singleton]
  exact ⟨permissions?_on_of_ne hr, permits_on_of_ne hr⟩

namespace Recreated

def table : Resource := .table "ks" "tbl"

/-- The entry of the table is taken out by the second change and made again by the third. -/
def changes : List Change :=
  [.grant table [.select, .modify, .select], .revoke table [.modify, .select],
    .grant table [.modify]]

end Recreated

open Recreated in
theorem permits_of_history_recreated :
    (replay changes).permits table .modify = true ∧ (replay changes).permits table .select = false ∧
      Resource.data ≠ (Change.revoke table [.modify]).resource ∧
      (replay (changes ++ [.revoke table [.modify]])).permissions? .data =
        (replay changes).permissions? .data := by
  obtain ⟨hpermits, hothers⟩ := permits_of_history changes
  have hdata : Resource.data ≠ (Change.revoke table [.modify]).resource := by decide
  refine ⟨(hpermits table .modify).2 ⟨[.modify], rfl⟩, ?_, hdata, (hothers _ .data hdata).1⟩
  rw [Bool.eq_false_iff]
  intro hselect
  obtain ⟨ps, hps⟩ := (hpermits table .select).1 hselect
  cases hps

end Whitelist

/-! ## Stores in memory -/

namespace MemoryStore

inductive Call where
  | change (role : Role) (c : Whitelist.Change)
  | remove (role : Role)
  | load (role : Role)

namespace Call

def on (s : MemoryStore) : Call → MemoryStore
  | change role (.grant r ps) => s.grant role r ps
  | change role (.revoke r ps) => s.revoke role r ps
  | remove role => s.removeRole role
  | load role => (s.load role).2

/-- What becomes of the changes of a role that count. -/
def amend (role : Role) (kept : List Whitelist.Change) : Call → List Whitelist.Change
  | change other c => if other = role then kept ++ [c] else kept
  | remove other => if other = role then [] else kept
  | load _ => kept

end Call

def replay (history : List Call) : MemoryStore := history.foldl Call.on empty

/-- The changes of a role since it was last removed. -/
def changesOf (role : Role) (history : List Call) : List Whitelist.Change :=
  history.foldl (Call.amend role) []

theorem whitelistOf_empty (role : Role) : empty.whitelistOf role = Whitelist.empty := by
  rw [whitelistOf, empty, Std.ExtTreeMap.getD_empty]
  rfl

theorem whitelistOf_insert (s : MemoryStore) (role other : Role) (w : Whitelist) :
    whitelistOf { s with whitelists := s.whitelists.insert role w } other =
      if role = other then w else s.whitelistOf other := by
  rw [whitelistOf, Std.ExtTreeMap.getD_insert]
  simp only [Std.compare_eq_iff_eq, whitelistOf]

theorem whitelistOf_change (s : MemoryStore) (role other : Role) (c : Whitelist.Change) :
    ((Call.change role c).on s).whitelistOf other =
      if role = other then c.on (s.whitelistOf role) else s.whitelistOf other := by
  cases c with
  | grant r ps => exact whitelistOf_insert s role other _
  | revoke r ps =>
    rw [Call.on, revoke]
    cases hw : s.whitelists[role]? with
    | none =>
      have habsent : s.whitelistOf role = Whitelist.empty := by
        rw [whitelistOf, Std.ExtTreeMap.getD_eq_getD_getElem?, hw]
        rfl
      show s.whitelistOf other = _
      split
      · rename_i hsame
        rw [← hsame, habsent, Whitelist.Change.on, Whitelist.revoke, Whitelist.permissions?_empty]
      · rfl
    | some w =>
      have hheld : s.whitelistOf role = w := by
        rw [whitelistOf, Std.ExtTreeMap.getD_eq_getD_getElem?, hw, Option.getD_some]
      rw [hheld]
      exact whitelistOf_insert s role other _

theorem whitelistOf_removeRole (s : MemoryStore) (role other : Role) :
    (s.removeRole role).whitelistOf other =
      if role = other then Whitelist.empty else s.whitelistOf other := by
  rw [whitelistOf, removeRole, Std.ExtTreeMap.getD_erase]
  simp only [Std.compare_eq_iff_eq, whitelistOf]
  rfl

theorem whitelistOf_replay (history : List Call) (role : Role) :
    (replay history).whitelistOf role = Whitelist.replay (changesOf role history) := by
  induction history using List.reverseRecOn with
  | nil => exact whitelistOf_empty role
  | append_singleton history call ih =>
    rw [replay, List.foldl_append, List.foldl_cons, List.foldl_nil, ← replay, changesOf,
      List.foldl_append, List.foldl_cons, List.foldl_nil, ← changesOf]
    cases call with
    | change other c =>
      rw [whitelistOf_change, Call.amend]
      split
      · rename_i hsame
        rw [hsame, ih, Whitelist.replay_append_singleton]
      · exact ih
    | remove other =>
      rw [Call.on, whitelistOf_removeRole, Call.amend]
      split
      · rfl
      · exact ih
    | load other => exact ih

end MemoryStore
end AuditTrail
