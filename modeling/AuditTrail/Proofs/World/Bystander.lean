import AuditTrail.Proofs.World.Sequel

/-!
# Tasks that take no step

A task that is over stands by: a step does the same to the world with it and without it
(`step_setTask`), and so does a run.  So a call that is over as soon as it begins leaves no trace
but its result, whatever else goes on.  It looks nothing up, touches no entry of the cache and
begins no load (`Procedure.atOnce_done`).
-/

namespace AuditTrail

/-- The procedure that is over with this result. -/
def Procedure.ofResult {α : Type} : Except Error α → Procedure α
  | .ok value => .done value
  | .error e => .failed e

namespace World

variable {σ ρ : Type} {w : World σ ρ} {id i : TaskId} {t : Task ρ}

theorem withTask_eq_setTask {sink : Sink} (h : w.sink = sink) :
    w.withTask id t sink = w.setTask id t := by
  subst h
  rfl

theorem setTask_setTask (hi : i ≠ id) (s : Task ρ) :
    (w.setTask id t).setTask i s = (w.setTask i s).setTask id t := by
  show (w.withTask id t w.sink).setTask i s = _
  exact setTask_withTask hi s

/-! ## The sink of a step -/

theorem sink_request (w : World σ ρ) (role : Role) (next : Whitelist → Procedure ρ)
    (stage : RequestStage) : (w.request id role next stage).sink = w.sink := by
  cases stage with
  | probing =>
    rw [request]
    cases w.cache.entry? role <;> rfl
  | counted entry counter =>
    rw [request]
    split <;> rfl
  | _ => rfl

variable [WhitelistStore σ]

theorem sink_proceed (w : World σ ρ) (role : Role) : (w.proceed role).sink = w.sink := by
  rw [proceed]
  split <;> rfl

omit [WhitelistStore σ] in
theorem sink_deliver (w : World σ ρ) (role : Role) (refusal : Option Error) :
    (w.deliver role refusal).sink = w.sink := by
  rw [deliver]
  split <;> rfl

/-! ## Steps -/

theorem advance_setTask_of_ne (hi : i ≠ id) :
    (w.setTask id t).advance i = (w.advance i).setTask id t := by
  have htask : (w.setTask id t).task? i = w.task? i := by
    rw [task?_setTask, if_neg hi.symm]
  rw [advance, advance, htask]
  cases hs : w.task? i with
  | none => rfl
  | some s =>
    obtain ⟨procedure, stage⟩ := s
    cases procedure with
    | done value => rfl
    | failed e => rfl
    | closure user next =>
      have hroles : (w.setTask id t).rolesOf user = w.rolesOf user := rfl
      simp only [hroles]
      cases w.rolesOf user <;> exact setTask_setTask hi _
    | residentFirst roles next => exact setTask_setTask hi _
    | whitelist role next =>
      have hrequest : (w.withTask id t w.sink).request i role next stage =
          (w.request i role next stage).withTask id t w.sink :=
        request_withTask hi role next stage
      exact hrequest.trans (withTask_eq_setTask (sink_request w role next stage))
    | setup next =>
      simp only [prepare, setTask]
      cases (WhitelistStore.setup w.store).1 <;>
        exact setTask_setTask (w := { w with store := (WhitelistStore.setup w.store).2 }) hi _
    | append line next =>
      simp only [setTask]
      cases w.sink.append line with
      | ok sink => exact setTask_setTask (w := { w with sink }) hi _
      | error e => exact setTask_setTask hi _
    | bump scope next =>
      exact setTask_setTask (w := { w with cache := w.cache.bump scope }) hi _
    | discard scope next =>
      exact setTask_setTask (w := { w with cache := w.cache.discard scope }) hi _

omit [WhitelistStore σ] in
theorem deliver_setTask (hwait : w.WaitersWait) (hfree : w.task? id = none) (role : Role)
    (refusal : Option Error) :
    (w.setTask id t).deliver role refusal = (w.deliver role refusal).setTask id t := by
  -- the landing of a load wakes its waiters, and a task that is not there is none of them
  have htold : w.told id t (.deliver role refusal) = t := by
    rw [told]
    split
    · rename_i generation answer waiters hflight
      refine if_neg fun hid => ?_
      obtain ⟨next, hnext⟩ := hwait role _ id hflight hid
      rw [hfree] at hnext
      cases hnext
    · rfl
  have hdeliver : (w.withTask id t w.sink).deliver role refusal = _ :=
    deliver_withTask role refusal
  rw [htold, withTask_eq_setTask (sink_deliver w role refusal)] at hdeliver
  exact hdeliver

/-- A task that is over stands by while others take a step. -/
theorem step_setTask {a : Action σ ρ} (hwait : w.WaitersWait) (hfree : w.task? id = none)
    (hover : t.procedure.isOver = true) (ha : ∀ q, a ≠ .spawn id q) :
    (w.setTask id t).step a = (w.step a).setTask id t := by
  cases a with
  | spawn i q =>
    have hi : i ≠ id := fun h => ha q (by rw [h])
    have hcontains : (w.setTask id t).tasks.contains i = w.tasks.contains i := by
      simp [setTask, Std.ExtTreeMap.contains_insert, hi.symm]
    rw [step, step, hcontains]
    split
    · rfl
    · exact setTask_setTask hi _
  | advance i =>
    by_cases hi : i = id
    · subst hi
      have hself : (w.setTask i t).task? i = some t := by rw [task?_setTask, if_pos rfl]
      have hnone : w.advance i = w := by rw [advance, hfree]
      rw [step, step, advance_of_over hself hover, hnone]
    · exact advance_setTask_of_ne hi
  | proceed role =>
    have hproceed : (w.withTask id t w.sink).proceed role = _ := proceed_withTask role
    rwa [withTask_eq_setTask (sink_proceed w role)] at hproceed
  | deliver role refusal => exact deliver_setTask hwait hfree role refusal
  | changeStore store => rfl
  | changeGraph graph => rfl

/-- The task stands by during a whole run, in which its number is given to no other. -/
theorem run_setTask {actions : List (Action σ ρ)} (hwait : w.WaitersWait)
    (hfree : w.task? id = none) (hover : t.procedure.isOver = true)
    (hactions : ∀ a ∈ actions, ∀ q, a ≠ .spawn id q) :
    (w.setTask id t).run actions = (w.run actions).setTask id t ∧
      (w.run actions).task? id = none := by
  induction actions generalizing w with
  | nil => exact ⟨rfl, hfree⟩
  | cons a rest ih =>
    rw [List.forall_mem_cons] at hactions
    have hstill : (w.step a).task? id = none := by
      rcases task?_step_of_none hfree a with hnone | ⟨q, hq, -⟩
      · exact hnone
      · exact absurd hq (hactions.1 q)
    have hrest := ih (waitersWait_step hwait a) hstill hactions.2
    rw [← step_setTask hwait hfree hover hactions.1] at hrest
    exact hrest

/-! ## The world without the task -/

omit [WhitelistStore σ]

theorem forget_setTask (w : World σ ρ) (id : TaskId) (t : Task ρ) :
    (w.setTask id t).forget id = w.forget id := by
  have htasks : (w.tasks.insert id t).erase id = w.tasks.erase id := by
    refine Std.ExtTreeMap.ext_getElem? fun i => ?_
    rw [Std.ExtTreeMap.getElem?_erase, Std.ExtTreeMap.getElem?_erase,
      Std.ExtTreeMap.getElem?_insert]
    split <;> rfl
  rw [setTask, forget, htasks, forget]

theorem forget_of_free (hfree : w.task? id = none) : w.forget id = w := by
  have htasks : w.tasks.erase id = w.tasks := by
    refine Std.ExtTreeMap.ext_getElem? fun i => ?_
    rw [Std.ExtTreeMap.getElem?_erase]
    split
    · rename_i hi
      rw [← Std.LawfulEqOrd.eq_of_compare hi]
      exact hfree.symm
    · rfl
  rw [forget, htasks]

theorem result?_resume_ofResult (w : World σ ρ) (id : TaskId) (result : Except Error ρ) :
    (w.resume id (Procedure.ofResult result)).result? id = some result := by
  rw [result?, task?_resume, if_pos rfl]
  cases result <;> rfl

end World

namespace Procedure

open World (Action)

/-- A call of the procedure has this value as soon as it begins.  A run goes on as it would without
the call, so nothing is looked up for it, no entry is touched and no load begins. -/
def AtOnce {ρ : Type} (p : Procedure ρ) (value : ρ) : Prop :=
  ∀ {σ : Type} [WhitelistStore σ] (w : World σ ρ) (id : TaskId) (actions : List (Action σ ρ)),
    w.WaitersWait → w.task? id = none → (∀ a ∈ actions, ∀ q, a ≠ .spawn id q) →
      ((w.resume id p).run actions).result? id = some (.ok value) ∧
        ((w.resume id p).run actions).forget id = w.run actions

theorem atOnce_done {ρ : Type} (value : ρ) : (Procedure.done value).AtOnce value := by
  intro σ _ w id actions hwait hfree hactions
  obtain ⟨hrun, hstill⟩ :=
    World.run_setTask (t := Task.start (.done value)) hwait hfree rfl hactions
  rw [World.resume, hrun]
  refine ⟨(w.run actions).result?_resume_ofResult id (.ok value), ?_⟩
  rw [World.forget_setTask, World.forget_of_free hstill]

end Procedure
end AuditTrail
