import AuditTrail.Proofs.Decision.Coverage
import AuditTrail.Proofs.World.Conduct
import AuditTrail.Proofs.World.Freshness
import AuditTrail.Store.Memory

/-!
# Revocations take effect

A decision that begins after every change of the store was followed by an invalidation gets
whitelists as they are in the store now, whatever loads from before were in flight, joined or
resident.  Its answer is then that of the reference, which has no cache.
-/

namespace AuditTrail

namespace World

variable {σ ρ : Type} [WhitelistStore σ] {w : World σ ρ} {actions : List (Action σ ρ)}

theorem stored_eq_of_unchanged {role : Role} {m n : Nat} (hmn : m ≤ n)
    (hstep : ∀ k, m ≤ k → k < n →
      (w.after actions (k + 1)).stored role = (w.after actions k).stored role) :
    (w.after actions n).stored role = (w.after actions m).stored role := by
  induction hmn with
  | refl => rfl
  | @step n h ih =>
    rw [hstep n h (Nat.lt_succ_self n)]
    exact ih fun k hk hkn => hstep k hk (Nat.lt_succ_of_lt hkn)

/-- Between two times the store keeps its answer for the role. -/
def Settled (w : World σ ρ) (actions : List (Action σ ρ)) (role : Role) (start finish : Nat) :
    Prop :=
  ∀ n, start ≤ n → n ≤ finish →
    (w.after actions n).stored role = (w.after actions start).stored role

/-- Every change of what the store keeps for the role was followed by an invalidation that reaches
the role.  Of the two steps of an invalidation only the bump matters. -/
def Announced (w : World σ ρ) (actions : List (Action σ ρ)) (role : Role) (start : Nat) : Prop :=
  ∀ n, n < start → (w.after actions (n + 1)).stored role ≠ (w.after actions n).stored role →
    ∃ scope bump, n < bump ∧ bump < start ∧ scope.Reaches role ∧
      .bumped scope ∈ w.eventsAt actions bump

/-- A request that begins when all changes have been announced hands out what the store keeps. -/
theorem stored_of_granted {role : Role} {id : TaskId} {whitelist : Whitelist}
    {start finish k : Nat} (hw : w.IsNew) (hbegin : ¬ (w.after actions start).MidRequest id)
    (hsettled : Settled w actions role start finish) (hannounced : Announced w actions role start)
    (hstart : start ≤ k) (hfinish : k ≤ finish)
    (hgrant : .granted id role whitelist ∈ w.eventsAt actions k) :
    (w.after actions start).stored role = .ok whitelist := by
  obtain ⟨asked, landed, hlanded, hgives, hfresh⟩ := loaded_of_granted hw hbegin hstart hgrant
  obtain ⟨n, hasked, hn, hanswer⟩ := hgives.answers
  rw [← stored_of_answered hanswer]
  rcases Nat.lt_or_ge n start with hlt | hge
  · -- the store answered before the decision began, so a change since then would have been
    -- announced by a bump before the store was asked
    refine stored_eq_of_unchanged (Nat.le_of_lt hlt) fun m hm hmstart => ?_
    refine Classical.byContradiction fun hchange => ?_
    obtain ⟨scope, bump, hafter, hbefore, hscope, hbump⟩ := hannounced m hmstart hchange
    have hold := hfresh scope bump hbefore hbump hscope
    omega
  · exact (hsettled n hge (by omega)).symm

end World

namespace Decision

open Procedure (Answers)
open World (Action Answering Settled Announced)

variable {σ : Type} [WhitelistStore σ] {w : World σ Bool} {actions : List (Action σ Bool)}

/-- Answers that are as the world has them: the graph's closure, and for each role of the user what
the store keeps. -/
def currentAnswers (w : World σ Bool) (user : Role) : Answers where
  closure asked answer := asked = user → ∀ l, answer = .ok l → l = w.graph.closure user
  sorted l m := ∀ x, x ∈ m ↔ x ∈ l
  whitelist x answer := ∀ v, answer = .ok v → x ∈ w.graph.closure user → w.stored x = .ok v

theorem ensures_reference {order : List Role → List Role} {record : Record}
    (horder : ∀ l x, x ∈ order l ↔ x ∈ l) :
    (decideIn order record).Ensures (currentAnswers w record.user) fun result =>
      ∀ b, result = .ok b → b = reference w.graph w.stored record := by
  have hsettle := ensures_decideIn (A := currentAnswers w record.user) w.stored record horder
    (fun l hl x => by rw [hl rfl l rfl]) (fun l m hm => hm) (fun x hx v hv => hv v rfl hx)
  refine hsettle.mono ?_
  rintro result (⟨e, rfl, -⟩ | hsettles) b hb
  · cases hb
  · subst hb
    exact eq_reference_of_settles hsettles

/-- A decision during which the store and the graph stay as they are, and before which every change
was followed by an invalidation, gives the answer of the reference if it gives one. -/
theorem decision_eq_reference (hw : w.IsNew) {order : List Role → List Role} {record : Record}
    (horder : ∀ l x, x ∈ order l ↔ x ∈ l) {id : TaskId} {start finish : Nat}
    (hspawn : actions[start]? = some (.spawn id (decideIn order record)))
    (hunused : (w.after actions start).task? id = none)
    (hgraph : ∀ n, start ≤ n → n ≤ finish →
      (w.after actions n).graph.closure record.user =
        (w.after actions start).graph.closure record.user)
    (hsettled : ∀ x ∈ (w.after actions start).graph.closure record.user,
      Settled w actions x start finish)
    (hannounced : ∀ x ∈ (w.after actions start).graph.closure record.user,
      Announced w actions x start)
    (hlater : start < finish) {b : Bool}
    (hdone : (w.after actions finish).result? id = some (.ok b)) :
    b = reference (w.after actions start).graph (w.after actions start).stored record := by
  have hbegin : ¬ (w.after actions start).MidRequest id := by
    rintro ⟨role, next, stage, htask, -⟩
    rw [hunused] at htask
    cases htask
  have hstarted : (w.after actions (start + 1)).task? id =
      some (Task.start (decideIn order record)) := by
    rw [World.after_succ hspawn, World.step, if_neg, World.task?_resume, if_pos rfl]
    rw [Std.ExtTreeMap.contains_eq_isSome_getElem?]
    simpa [World.task?] using hunused
  have hanswering (k : Nat) (a : Action σ Bool) (hk : start + 1 ≤ k) (hkf : k < finish)
      (ha : actions[k]? = some a) :
      Answering (currentAnswers (w.after actions start) record.user) (w.after actions k) id a := by
    refine ⟨?_, fun l x => World.mem_residentFirst, ?_, fun role e _ v hv => ?_⟩
    · rintro user rfl l hl
      rw [← hgraph k (by omega) (by omega)]
      rw [World.rolesOf] at hl
      split at hl
      · cases hl
      · cases hl
        rfl
    · intro role whitelist hgrant v hv hrole
      cases hv
      rw [← World.eventsAt_of_some ha] at hgrant
      exact World.stored_of_granted hw hbegin (hsettled role hrole) (hannounced role hrole)
        (by omega) (by omega) hgrant
    · cases hv
  obtain ⟨t, ht, hensures⟩ := World.ensures_after hw hstarted (ensures_reference horder) hlater
    hanswering
  exact World.of_result? ht hensures hdone b rfl

namespace Revoked

open Sample SampleRole

def world : World MemoryStore Bool :=
  ⟨graph, none, .grant .empty auditor .data [.select, .modify], .new true, {}, ∅⟩

/-- A load has its answer when the exemption is revoked and the role invalidated, and it lands after
that.  The decision finds the entry resident and asks its role first. -/
def steps : List (Action MemoryStore Bool) :=
  [.spawn 1 ((Procedure.whitelistOf auditor).andThen fun _ => .done true), .advance 1,
    .proceed auditor, .proceed auditor, .proceed auditor, .proceed auditor,
    .changeStore .empty,
    .spawn 2 ((Procedure.invalidate (.role auditor)).andThen fun _ => .done true),
    .advance 2, .advance 2, .deliver auditor none,
    .spawn 3 (decideIn id record), .advance 3, .advance 3,
    .advance 3, .advance 3, .advance 3, .advance 3, .advance 3,
    .proceed auditor, .proceed auditor, .proceed auditor, .proceed auditor, .deliver auditor none,
    .advance 3, .advance 3,
    .advance 3, .proceed user, .proceed user, .proceed user, .proceed user, .deliver user none,
    .advance 3, .advance 3]

theorem graph_after (n : Nat) : (world.after steps n).graph = graph :=
  World.graph_after (by simp [steps]) n

def middle : World MemoryStore Bool :=
  (world.after steps 12).resume 3 (.residentFirst [user, auditor] (amongRoles record))

theorem after_thirteen : world.after steps 13 = middle := by
  have htask : (world.after steps 12).task? 3 = some (Task.start (decideIn id record)) := by
    rw [World.after_succ (a := .spawn 3 (decideIn id record)) rfl, World.step,
      if_neg (by decide +kernel), World.task?_resume, if_pos rfl]
  have hroles : (world.after steps 12).rolesOf user = .ok [user, auditor] := by
    have hfault : (world.after steps 12).graphFault = none := by decide +kernel
    rw [World.rolesOf, hfault, graph_after, closure_user]
  rw [World.after_succ (a := .advance 3) rfl, World.step]
  exact World.advance_of_closure htask hroles

theorem after_of_le {n : Nat} (h : 13 ≤ n) :
    world.after steps n = middle.run ((steps.take n).drop 13) := by
  rw [World.after_eq_run_drop h, after_thirteen]

theorem stored_after : ∀ x ∈ [user, auditor], ∀ n, 11 ≤ n → n ≤ 34 →
    (world.after steps n).stored x = .ok ∅ := by
  intro x hx n hn hle
  rcases Nat.lt_or_ge n 13 with hlt | hge
  · have hearly : ∀ x ∈ [user, auditor], ∀ m < 13, 11 ≤ m →
        (world.after steps m).stored x = .ok ∅ := by
      decide +kernel
    exact hearly x hx n hlt hn
  · have hlate : ∀ x ∈ [user, auditor], ∀ m < 35, 13 ≤ m →
        (middle.run ((steps.take m).drop 13)).stored x = .ok ∅ := by
      decide +kernel
    rw [after_of_le hge]
    exact hlate x hx n (by omega) hge

theorem announced : ∀ x ∈ [user, auditor], Announced world steps x 11 := by
  have hsame : ∀ x ∈ [user, auditor], ∀ n < 11, x = user ∨ n ≠ 6 →
      (world.after steps (n + 1)).stored x = (world.after steps n).stored x := by
    decide +kernel
  intro x hx n hn hchange
  have hcase : ¬ (x = user ∨ n ≠ 6) := fun h => hchange (hsame x hx n hn h)
  rw [not_or, Decidable.not_not] at hcase
  obtain ⟨hne, rfl⟩ := hcase
  have hauditor : x = auditor := by simpa [hne] using hx
  exact ⟨.role auditor, 8, by decide, by decide, hauditor.symm, by decide +kernel⟩

theorem result?_after : (world.after steps 34).result? 3 = some (.ok false) := by
  rw [after_of_le (by decide)]
  decide +kernel

end Revoked

open Sample SampleRole Revoked in
theorem decision_eq_reference_revoked :
    false = reference (Revoked.world.after steps 11).graph (Revoked.world.after steps 11).stored
      record := by
  have hclosure (n : Nat) :
      (Revoked.world.after steps n).graph.closure record.user = [user, auditor] := by
    rw [Revoked.graph_after n]
    exact closure_user
  refine decision_eq_reference ⟨⟨true, rfl⟩, rfl⟩ (fun _ _ => Iff.rfl) rfl (by decide +kernel)
    (fun n _ _ => by rw [hclosure, hclosure]) ?_ ?_ (by decide) result?_after
  · intro x hx n hn hle
    rw [hclosure] at hx
    rw [stored_after x hx n hn hle, stored_after x hx 11 (by decide) (by decide)]
  · intro x hx
    rw [hclosure] at hx
    exact announced x hx

end Decision
end AuditTrail
