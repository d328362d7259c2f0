import AuditTrail.Proofs.Role.Reachability
import AuditTrail.Proofs.Role.Sample
import Mathlib.Data.List.Induction

/-!
# A graph and its history

A graph is what has become of an empty one by grants and revocations.  A grant is in force if the
last change of its pair was a grant (`InForce`), and the graph holds exactly these
(`grants_replay_iff`).  So the closure of a role is what the grants in force lead to
(`closure_of_history`).
-/

namespace AuditTrail.RoleGraph

open Relation (ReflTransGen)

inductive Change where
  | grant (grantee granted : Role)
  | revoke (grantee granted : Role)
deriving DecidableEq, Repr

namespace Change

def pair : Change → Role × Role
  | grant a b | revoke a b => (a, b)

def on (g : RoleGraph) : Change → RoleGraph
  | grant a b => g.grant a b
  | revoke a b => (g.revoke a b).2

end Change

def replay (history : List Change) : RoleGraph := history.foldl Change.on empty

/-- The last change of the pair is a grant. -/
def InForce (history : List Change) (grantee granted : Role) : Prop :=
  ∃ before after, history = before ++ .grant grantee granted :: after ∧
    ∀ c ∈ after, c.pair ≠ (grantee, granted)

variable {g : RoleGraph} {history : List Change} {c : Change} {a b x y : Role}

/-! ## Revocations -/

theorem not_grants_empty : ¬ empty.Grants x y := by
  rw [Grants, holds, empty, Std.ExtTreeMap.getD_empty, Std.ExtTreeSet.contains_empty]
  exact Bool.false_ne_true

/-- Revoking tells whether the grant was there. -/
theorem revoke_fst_iff : (g.revoke a b).1 = true ↔ g.Grants a b := by
  rw [Grants, holds, revoke, Std.ExtTreeMap.getD_eq_getD_getElem?]
  cases g.direct[a]? with
  | none => simp
  | some roles => simp

/-- Revoking leaves every other pair as it was. -/
theorem grants_revoke_iff :
    (g.revoke a b).2.Grants x y ↔ g.Grants x y ∧ (x, y) ≠ (a, b) := by
  rw [Grants, Grants, holds, holds, revoke]
  cases hroles : g.direct[a]? with
  | none =>
    have hfree : g.direct.getD a ∅ = ∅ := by
      rw [Std.ExtTreeMap.getD_eq_getD_getElem?, hroles, Option.getD_none]
    refine ⟨fun h => ⟨h, ?_⟩, And.left⟩
    rintro ⟨⟩
    rw [hfree, Std.ExtTreeSet.contains_empty] at h
    cases h
  | some roles =>
    rw [Std.ExtTreeMap.getD_insert]
    by_cases hax : a = x
    · subst hax
      have hheld : g.direct.getD a ∅ = roles := by
        rw [Std.ExtTreeMap.getD_eq_getD_getElem?, hroles, Option.getD_some]
      rw [hheld, if_pos Std.ReflOrd.compare_self, Std.ExtTreeSet.contains_erase]
      by_cases hby : b = y
      · simp [hby]
      · simp [hby, Ne.symm hby]
    · simp [hax, Ne.symm hax]

/-! ## Histories -/

theorem replay_concat (history : List Change) (c : Change) :
    replay (history ++ [c]) = c.on (replay history) := by
  rw [replay, List.foldl_append]
  rfl

/-- The last change of a history decides about its pair and about no other. -/
theorem inForce_concat_iff :
    InForce (history ++ [c]) a b ↔ c = .grant a b ∨ InForce history a b ∧ c.pair ≠ (a, b) := by
  constructor
  · rintro ⟨before, after, heq, hlast⟩
    rcases List.eq_nil_or_concat after with rfl | ⟨after, c', rfl⟩
    · rw [List.append_singleton_inj] at heq
      exact Or.inl heq.2
    · rw [List.concat_eq_append, ← List.cons_append, ← List.append_assoc,
        List.append_singleton_inj] at heq
      obtain ⟨rfl, rfl⟩ := heq
      refine Or.inr ⟨⟨before, after, rfl, fun d hd => hlast d ?_⟩, hlast c ?_⟩
      · rw [List.concat_eq_append]
        exact List.mem_append_left _ hd
      · rw [List.concat_eq_append]
        exact List.mem_append_right _ (List.mem_singleton_self c)
  · rintro (rfl | ⟨⟨before, after, rfl, hlast⟩, hc⟩)
    · exact ⟨history, [], rfl, fun d hd => absurd hd List.not_mem_nil⟩
    · refine ⟨before, after ++ [c], by simp, fun d hd => ?_⟩
      rcases List.mem_append.1 hd with hd | hd
      · exact hlast d hd
      · rw [List.mem_singleton.1 hd]
        exact hc

/-- One change does to a graph what it does to the grants in force. -/
theorem grants_on_iff :
    (c.on g).Grants x y ↔ c = .grant x y ∨ g.Grants x y ∧ c.pair ≠ (x, y) := by
  cases c with
  | grant a b =>
    rw [Change.on, grants_grant_iff, Change.grant.injEq, Change.pair, ne_eq, Prod.mk.injEq]
    by_cases hpair : a = x ∧ b = y
    · simp [hpair]
    · simp [hpair]
  | revoke a b =>
    rw [Change.on, grants_revoke_iff, Change.pair]
    constructor
    · rintro ⟨hgrants, hpair⟩
      exact Or.inr ⟨hgrants, Ne.symm hpair⟩
    · rintro (hgrant | ⟨hgrants, hpair⟩)
      · cases hgrant
      · exact ⟨hgrants, Ne.symm hpair⟩

/-- The graph holds the grants in force. -/
theorem grants_replay_iff : (replay history).Grants x y ↔ InForce history x y := by
  induction history using List.reverseRecOn with
  | nil =>
    refine ⟨fun h => absurd h not_grants_empty, ?_⟩
    rintro ⟨before, after, heq, -⟩
    cases before <;> cases heq
  | append_singleton history c ih => rw [replay_concat, grants_on_iff, inForce_concat_iff, ih]

theorem reaches_replay_iff :
    (replay history).Reaches x y ↔ ReflTransGen (InForce history) x y := by
  have hgrants : (replay history).Grants = InForce history :=
    funext fun a => funext fun b => propext grants_replay_iff
  rw [Reaches, hgrants]

/-- Whatever has been granted and revoked, a search for the roles that a role holds does not go on
forever, in whatever order it takes what is granted.  When it can go no further, it has visited each
role to which the grants in force lead, once, and no other; and the closure is what such a search
has visited.  Revoking tells whether the pair was in force and leaves all others as they were. -/
theorem closure_of_history (history : List Change) (r : Role) :
    (WellFounded fun s' s => (replay history).Turn s s') ∧
      (∀ s, ReflTransGen (replay history).Turn (.start r) s →
        (∀ s', ¬ (replay history).Turn s s') →
          s.visited.Nodup ∧ ∀ x, x ∈ s.visited ↔ ReflTransGen (InForce history) r x) ∧
      ReflTransGen (replay history).Turn (.start r) ⟨(replay history).closure r, []⟩ ∧
      (∀ x, x ∈ (replay history).closure r ↔ ReflTransGen (InForce history) r x) ∧
      ∀ a b, (((replay history).revoke a b).1 = true ↔ InForce history a b) ∧
        ∀ x y, (x, y) ≠ (a, b) →
          ((replay history).revoke a b).2.holds x y = (replay history).holds x y := by
  refine ⟨wellFounded_turn _, fun s hturns hstuck => ?_, turns_visit _ [] [r], fun x => ?_,
    fun a b => ⟨?_, fun x y hpair => ?_⟩⟩
  · have hexplores := (Explores.begin (replay history) r).turns hturns
    refine ⟨hexplores.nodup, fun x => ?_⟩
    rw [hexplores.mem_iff (queue_eq_nil_of_stuck hstuck), reaches_replay_iff]
  · rw [mem_closure_iff, reaches_replay_iff]
  · rw [revoke_fst_iff, grants_replay_iff]
  · have hsame : ((replay history).revoke a b).2.Grants x y ↔ (replay history).Grants x y := by
      rw [grants_revoke_iff, and_iff_left hpair]
    exact Bool.eq_iff_iff.2 hsame

namespace Regranted

open SampleRole

/-- Two roles hold each other, and one holds itself.  One of the grants was taken back and given
again. -/
def changes : List Change :=
  [.grant user user, .grant user auditor, .revoke user auditor, .grant auditor user,
    .grant user auditor]

theorem inForce_user : InForce changes user auditor :=
  ⟨changes.dropLast, [], rfl, fun c hc => by cases hc⟩

end Regranted

open Regranted SampleRole in
theorem closure_of_history_regranted :
    ((replay Regranted.changes).closure user).Nodup ∧
      auditor ∈ (replay Regranted.changes).closure user ∧
      ((replay Regranted.changes).revoke user auditor).1 = true ∧
      ((replay Regranted.changes).revoke user auditor).2.holds auditor user = true := by
  obtain ⟨-, hsearch, hturns, hmem, hrevoke⟩ := closure_of_history Regranted.changes user
  have hstuck (s : Search) :
      ¬ (replay Regranted.changes).Turn ⟨(replay Regranted.changes).closure user, []⟩ s := by
    rintro ⟨⟩
  refine ⟨(hsearch _ hturns hstuck).1, (hmem auditor).2 (.single inForce_user),
    (hrevoke user auditor).1.2 inForce_user, ?_⟩
  rw [(hrevoke user auditor).2 auditor user (by decide)]
  decide +kernel

end AuditTrail.RoleGraph
