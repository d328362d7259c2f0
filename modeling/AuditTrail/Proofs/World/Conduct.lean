import AuditTrail.Proofs.Procedure.Ensures
import AuditTrail.Proofs.World.Provenance

/-!
# Tasks and what their procedures ensure

A task that gets allowed answers in every step keeps what its procedure ensures.  So whatever a
procedure ensures holds of the result of any task that runs it, however the run interleaves.
-/

namespace AuditTrail.World

open Procedure (Answers)

variable {σ ρ : Type} [WhitelistStore σ]

/-- What has become of a task that is over. -/
def result? (w : World σ ρ) (id : TaskId) : Option (Except Error ρ) :=
  match w.task? id with
  | some ⟨.done value, _⟩ => some (.ok value)
  | some ⟨.failed e, _⟩ => some (.error e)
  | _ => none

omit [WhitelistStore σ] in
theorem result?_of_done {w : World σ ρ} {id : TaskId} {value : ρ} {stage : RequestStage}
    (h : w.task? id = some ⟨.done value, stage⟩) : w.result? id = some (.ok value) := by
  rw [result?, h]

omit [WhitelistStore σ] in
theorem result?_of_failed {w : World σ ρ} {id : TaskId} {e : Error} {stage : RequestStage}
    (h : w.task? id = some ⟨.failed e, stage⟩) : w.result? id = some (.error e) := by
  rw [result?, h]

omit [WhitelistStore σ] in
theorem isOver_of_result? {w : World σ ρ} {id : TaskId} {t : Task ρ} {result : Except Error ρ}
    (ht : w.task? id = some t) (hresult : w.result? id = some result) :
    t.procedure.isOver = true := by
  rw [result?, ht] at hresult
  split at hresult
  · rename_i value stage htask
    cases htask
    rfl
  · rename_i e stage htask
    cases htask
    rfl
  · cases hresult

omit [WhitelistStore σ] in
theorem result?_of_isOver {w : World σ ρ} {id : TaskId} {t : Task ρ} (ht : w.task? id = some t)
    (hover : t.procedure.isOver = true) : ∃ result, w.result? id = some result := by
  obtain ⟨procedure, stage⟩ := t
  cases procedure with
  | done value => exact ⟨_, result?_of_done ht⟩
  | failed e => exact ⟨_, result?_of_failed ht⟩
  | _ => cases hover

theorem advance_of_over {w : World σ ρ} {id : TaskId} {t : Task ρ} (h : w.task? id = some t)
    (hover : t.procedure.isOver = true) : w.advance id = w := by
  rw [advance, h]
  obtain ⟨procedure, stage⟩ := t
  cases procedure with
  | done value => rfl
  | failed e => rfl
  | _ => cases hover

/-- In this step the world gives the task no answer that is not allowed. -/
structure Answering (A : Answers) (w : World σ ρ) (id : TaskId) (a : Action σ ρ) : Prop where
  closure : ∀ user, A.closure user (w.rolesOf user)
  sorted : ∀ roles, A.sorted roles (w.residentFirst roles)
  granted : ∀ role whitelist, .granted id role whitelist ∈ w.events a →
    A.whitelist role (.ok whitelist)
  denied : ∀ role e, .denied id role e ∈ w.events a → A.whitelist role (.error e)

variable {A : Answers} {Q : Except Error ρ → Prop} {id : TaskId}

theorem ensures_of_moves {w : World σ ρ} {a : Action σ ρ} {t t' : Task ρ} (hwait : WaitersWait w)
    (htask : w.task? id = some t) (hmoves : w.Moves id a t t') (ha : Answering A w id a)
    (h : t.procedure.Ensures A Q) : t'.procedure.Ensures A Q := by
  cases hmoves with
  | @toldRoles user next stage roles hroles =>
    refine h.1 roles ?_
    rw [← hroles]
    exact ha.closure user
  | @refusedRoles user next stage e hroles =>
    refine h.2 e ?_
    rw [← hroles]
    exact ha.closure user
  | @sorted roles next stage => exact h (w.residentFirst roles) (ha.sorted roles)
  | found hentry => exact h
  | joined habsent => exact h
  | counted => exact h
  | granted hgen => exact h.1 _ (ha.granted _ _ (mem_events_iff.2 (.granted htask hgen)))
  | refuted hgen => exact h
  | retried => exact h
  | prepared hdone => exact h.1
  | unprepared herror => exact h.2 _
  | appended hsink => exact h.1
  | unappended herror => exact h.2 _
  | bumped => exact h
  | discarded => exact h
  | @received role refusal generation answer waiters _ hflight hid =>
    obtain ⟨next, rfl⟩ := hwait.eq_waiting htask hflight hid
    cases hout : Cache.outcome answer refusal with
    | ok whitelist => exact h
    | error e => exact h.2 _ (ha.denied _ _ (mem_events_iff.2 (.denied hflight hout hid)))

variable {w : World σ ρ} {actions : List (Action σ ρ)} {m n : Nat}

/-- A task keeps what its procedure ensures as long as its answers are allowed. -/
theorem ensures_after (hw : w.IsNew) {t : Task ρ} (ht : (w.after actions m).task? id = some t)
    (h : t.procedure.Ensures A Q) (hmn : m ≤ n)
    (hA : ∀ k a, m ≤ k → k < n → actions[k]? = some a → Answering A (w.after actions k) id a) :
    ∃ t', (w.after actions n).task? id = some t' ∧ t'.procedure.Ensures A Q := by
  refine after_induction_from (P := fun k w' => k ≤ n →
    ∃ t', w'.task? id = some t' ∧ t'.procedure.Ensures A Q) ?_ ?_ ?_ hmn (Nat.le_refl n)
  · exact fun _ => ⟨t, ht, h⟩
  · exact fun k _ _ ih hk => ih (Nat.le_of_succ_le hk)
  · intro k a hmk ha ih hk
    obtain ⟨s, hs, hE⟩ := ih (Nat.le_of_succ_le hk)
    obtain ⟨s', hs', rfl | hmoves⟩ := task?_step hs a
    · exact ⟨s', hs', hE⟩
    · exact ⟨s', hs', ensures_of_moves (waitersWait_after hw) hs hmoves (hA k a hmk hk ha) hE⟩

omit [WhitelistStore σ] in
theorem of_result? {w : World σ ρ} {t : Task ρ} {result : Except Error ρ}
    (ht : w.task? id = some t) (h : t.procedure.Ensures A Q)
    (hresult : w.result? id = some result) : Q result := by
  rw [result?, ht] at hresult
  split at hresult
  · rename_i value stage htask
    cases htask
    cases hresult
    exact h
  · rename_i e stage htask
    cases htask
    cases hresult
    exact h
  · cases hresult

end AuditTrail.World
