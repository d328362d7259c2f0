import AuditTrail.Proofs.World.Conduct

/-!
# A task and its sequel

A task whose procedure is `q.andThen k` takes the same steps as one whose procedure is `q`, until
`q` is over, and then goes on with `k`.  To say so, the run is compared with the same run in which
the task has `q` alone: as long as no one else writes to the sink, the two worlds differ only in
that task and in the sink (`withTask`), whatever else happens.
-/

namespace AuditTrail

namespace Procedure

variable {α : Type}

/-- The procedure writes nothing to the sink. -/
def Silent : Procedure α → Prop
  | done _ | failed _ => True
  | closure _ next => ∀ roles, (next roles).Silent
  | residentFirst _ next => ∀ sorted, (next sorted).Silent
  | whitelist _ next => ∀ w, (next w).Silent
  | setup next | bump _ next | discard _ next => next.Silent
  | append _ _ => False

end Procedure

/-- The same task with more to do once it is over. -/
def Task.andThen {ρ : Type} (t : Task ρ) (k : ρ → Procedure ρ) : Task ρ :=
  ⟨t.procedure.andThen k, t.stage⟩

namespace World

variable {σ ρ : Type}

/-- What is spawned in this step writes nothing to the sink. -/
def Action.Silent : Action σ ρ → Prop
  | .spawn _ p => p.Silent
  | _ => True

/-- No task but this one writes to the sink. -/
def SilentBut (w : World σ ρ) (id : TaskId) : Prop :=
  ∀ i t, i ≠ id → w.task? i = some t → t.procedure.Silent

section Silence

variable [WhitelistStore σ] {w : World σ ρ} {id : TaskId}

theorem silent_of_moves {a : Action σ ρ} {t t' : Task ρ} (h : w.Moves id a t t')
    (ht : t.procedure.Silent) : t'.procedure.Silent := by
  cases h with
  | toldRoles h => exact ht _
  | refusedRoles h => exact trivial
  | sorted => exact ht _
  | found h => exact ht
  | joined h => exact ht
  | counted => exact ht
  | granted h => exact ht _
  | refuted h => exact ht
  | retried => exact ht
  | prepared h => exact ht
  | unprepared h => exact trivial
  | appended h => exact ht.elim
  | unappended h => exact trivial
  | bumped => exact ht
  | discarded => exact ht
  | @received role refusal generation answer waiters _ h hid =>
    cases Cache.outcome answer refusal with
    | ok whitelist => exact ht
    | error e => exact trivial

theorem SilentBut.step {a : Action σ ρ} (h : w.SilentBut id) (ha : a.Silent) :
    (w.step a).SilentBut id := by
  intro i t hi ht
  cases hbefore : w.task? i with
  | none =>
    rcases task?_step_of_none hbefore a with hnone | ⟨p, rfl, hp⟩
    · rw [hnone] at ht
      cases ht
    · rw [hp, Option.some.injEq] at ht
      subst ht
      exact ha
  | some s =>
    obtain ⟨s', hs', rfl | hmoves⟩ := task?_step hbefore a
    · rw [hs', Option.some.injEq] at ht
      subst ht
      exact h i s' hi hbefore
    · rw [hs', Option.some.injEq] at ht
      subst ht
      exact silent_of_moves hmoves (h i s hi hbefore)

theorem SilentBut.run {actions : List (Action σ ρ)} (h : w.SilentBut id)
    (hactions : ∀ a ∈ actions, a.Silent) : (w.run actions).SilentBut id := by
  induction actions generalizing w with
  | nil => exact h
  | cons a rest ih =>
    rw [List.forall_mem_cons] at hactions
    exact ih (h.step hactions.1) hactions.2

theorem waitersWait_run (hwait : w.WaitersWait) (actions : List (Action σ ρ)) :
    (w.run actions).WaitersWait := by
  induction actions generalizing w with
  | nil => exact hwait
  | cons a rest ih => exact ih (waitersWait_step hwait a)

/-- Each task on the list of a load waits for it, and no task writes to the sink. -/
structure Quiet (w : World σ ρ) : Prop where
  waiters : w.WaitersWait
  silent : ∀ i t, w.task? i = some t → t.procedure.Silent

theorem resume_eq_spawn {p : Procedure ρ} (hfresh : w.task? id = none) :
    w.resume id p = w.step (.spawn id p) := by
  rw [step, if_neg]
  rw [Std.ExtTreeMap.contains_eq_isSome_getElem?]
  have hnone : w.tasks[id]? = none := hfresh
  simp [hnone]

/-- What a task needs that begins in a quiet world. -/
theorem Quiet.resume {p : Procedure ρ} (h : w.Quiet) (hfresh : w.task? id = none) :
    (w.resume id p).WaitersWait ∧ (w.resume id p).SilentBut id := by
  refine ⟨?_, fun i t hi ht => ?_⟩
  · rw [resume_eq_spawn hfresh]
    exact waitersWait_step h.waiters _
  · rw [task?_resume, if_neg hi.symm] at ht
    exact h.silent i t ht

end Silence

/-! ## The other task -/

/-- The same world but for one task and the sink. -/
def withTask (w : World σ ρ) (id : TaskId) (t : Task ρ) (sink : Sink) : World σ ρ :=
  { w with sink, tasks := w.tasks.insert id t }

variable {w : World σ ρ} {id i : TaskId} {t : Task ρ} {sink : Sink}

theorem task?_withTask (w : World σ ρ) (id i : TaskId) (t : Task ρ) (sink : Sink) :
    (w.withTask id t sink).task? i = if id = i then some t else w.task? i :=
  task?_setTask w id i t

theorem task?_withTask_self : (w.withTask id t sink).task? id = some t := by
  rw [task?_withTask, if_pos rfl]

theorem setTask_withTask (hi : i ≠ id) (s : Task ρ) :
    (w.withTask id t sink).setTask i s = (w.setTask i s).withTask id t sink := by
  have htasks : (w.tasks.insert id t).insert i s = (w.tasks.insert i s).insert id t := by
    refine Std.ExtTreeMap.ext_getElem? fun j => ?_
    simp only [Std.ExtTreeMap.getElem?_insert, Std.compare_eq_iff_eq]
    split
    · rename_i hj
      rw [if_neg (by rw [← hj]; exact hi.symm)]
    · rfl
  simp only [setTask, withTask, htasks]

theorem insert_insert (tasks : Std.ExtTreeMap TaskId (Task ρ)) (id : TaskId) (t s : Task ρ) :
    (tasks.insert id t).insert id s = tasks.insert id s := by
  refine Std.ExtTreeMap.ext_getElem? fun i => ?_
  simp only [Std.ExtTreeMap.getElem?_insert]
  split <;> rfl

theorem setTask_withTask_self (s : Task ρ) :
    (w.withTask id t sink).setTask id s = (w.setTask id t).withTask id s sink := rfl

theorem withTask_setTask (s : Task ρ) :
    (w.setTask id t).withTask id s sink = w.withTask id s sink := by
  simp only [setTask, withTask, insert_insert]

theorem resume_withTask_self (p : Procedure ρ) :
    (w.withTask id t sink).resume id p = w.withTask id (Task.start p) sink := by
  rw [resume, setTask_withTask_self, withTask_setTask]

theorem resume_withTask (hi : i ≠ id) (p : Procedure ρ) :
    (w.withTask id t sink).resume i p = (w.resume i p).withTask id t sink :=
  setTask_withTask hi (Task.start p)

theorem request_withTask (hi : i ≠ id) (role : Role) (next : Whitelist → Procedure ρ)
    (stage : RequestStage) :
    (w.withTask id t sink).request i role next stage =
      (w.request i role next stage).withTask id t sink := by
  cases stage with
  | probing =>
    have hcache : (w.withTask id t sink).cache = w.cache := rfl
    cases hentry : w.cache.entry? role with
    | some entry =>
      simp only [request, hcache, hentry]
      exact setTask_withTask hi _
    | none =>
      simp only [request, hcache, hentry]
      exact setTask_withTask (w := { w with cache := w.cache.join role i }) hi _
  | waiting => rfl
  | holding entry => exact setTask_withTask hi _
  | counted entry counter =>
    by_cases hgen : entry.generation = ⟨w.cache.epoch, counter⟩
    · simp only [request, withTask, hgen, if_true]
      exact resume_withTask hi _
    · simp only [request, withTask, hgen, if_false]
      exact setTask_withTask hi _
  | outdated entry =>
    exact setTask_withTask (w := { w with cache := w.cache.discard (.role role) }) hi _

theorem advance_withTask_of_ne [WhitelistStore σ] (hi : i ≠ id)
    (hsilent : ∀ s, w.task? i = some s → s.procedure.Silent) :
    (w.withTask id t sink).advance i = (w.advance i).withTask id t sink := by
  have htask : (w.withTask id t sink).task? i = w.task? i := by
    rw [task?_withTask, if_neg hi.symm]
  rw [advance, advance, htask]
  cases hs : w.task? i with
  | none => rfl
  | some s =>
    obtain ⟨procedure, stage⟩ := s
    cases procedure with
    | done value => rfl
    | failed e => rfl
    | closure user next =>
      have hroles : (w.withTask id t sink).rolesOf user = w.rolesOf user := rfl
      simp only [hroles]
      cases w.rolesOf user <;> exact resume_withTask hi _
    | residentFirst roles next => exact resume_withTask hi _
    | whitelist role next => exact request_withTask hi role next stage
    | setup next =>
      simp only [prepare, withTask]
      cases (WhitelistStore.setup w.store).1 <;>
        exact resume_withTask (w := { w with store := (WhitelistStore.setup w.store).2 }) hi _
    | append line next => exact (hsilent _ hs).elim
    | bump scope next =>
      exact resume_withTask (w := { w with cache := w.cache.bump scope }) hi _
    | discard scope next =>
      exact resume_withTask (w := { w with cache := w.cache.discard scope }) hi _

theorem proceed_withTask [WhitelistStore σ] (role : Role) :
    (w.withTask id t sink).proceed role = (w.proceed role).withTask id t sink := by
  have hcache : (w.withTask id t sink).cache = w.cache := rfl
  rw [proceed, proceed, hcache]
  cases w.cache.flight? role with
  | none => rfl
  | some flight =>
    obtain ⟨stage, waiters⟩ := flight
    cases stage <;> rfl

/-- The task is told of the end of a load that it waits for. -/
def told (w : World σ ρ) (id : TaskId) (t : Task ρ) : Action σ ρ → Task ρ
  | .deliver role refusal =>
    match w.cache.flight? role with
    | some ⟨.answered generation answer, waiters⟩ =>
      if id ∈ waiters then t.receive generation (Cache.outcome answer refusal) else t
    | _ => t
  | _ => t

theorem told_of_not_answered {role : Role} {refusal : Option Error}
    (h : ∀ generation answer waiters,
      w.cache.flight? role ≠ some ⟨.answered generation answer, waiters⟩) :
    w.told id t (.deliver role refusal) = t := by
  rw [told]
  split
  · rename_i generation answer waiters hflight
    exact absurd hflight (h generation answer waiters)
  · rfl

theorem deliver_withTask (role : Role) (refusal : Option Error) :
    (w.withTask id t sink).deliver role refusal =
      (w.deliver role refusal).withTask id (w.told id t (.deliver role refusal)) sink := by
  by_cases h : ∃ generation answer waiters,
      w.cache.flight? role = some ⟨.answered generation answer, waiters⟩
  · obtain ⟨generation, answer, waiters, h⟩ := h
    have hflight : (w.withTask id t sink).cache.flight? role =
      some ⟨.answered generation answer, waiters⟩ := h
    rw [deliver_of_answered hflight, deliver_of_answered h, told, h]
    simp only [withTask]
    congr 1
    refine Std.ExtTreeMap.ext_getElem? fun i => ?_
    simp only [Std.ExtTreeMap.getElem?_map, Std.ExtTreeMap.getElem?_insert,
      Std.compare_eq_iff_eq]
    by_cases hi : id = i
    · subst hi
      simp only [if_true, Option.map_some]
    · simp only [if_neg hi]
  · have hnot : ∀ generation answer waiters,
        w.cache.flight? role ≠ some ⟨.answered generation answer, waiters⟩ :=
      fun generation answer waiters hflight => h ⟨generation, answer, waiters, hflight⟩
    rw [deliver_of_not_answered hnot, told_of_not_answered hnot]
    exact deliver_of_not_answered (w := w.withTask id t sink) hnot

/-- A step that is not the task's own finds it as it is, whatever it is, and leaves it so unless it
tells it of a load. -/
theorem step_withTask [WhitelistStore σ] {a : Action σ ρ} {s : Task ρ} (hother : w.SilentBut id)
    (hs : w.task? id = some s) (ha : a ≠ .advance id) :
    (w.withTask id t sink).step a = (w.step a).withTask id (w.told id t a) sink := by
  cases a with
  | spawn i p =>
    have hcontains : (w.withTask id t sink).tasks.contains i = w.tasks.contains i := by
      have htask := task?_withTask w id i t sink
      simp only [task?] at htask hs
      simp only [Std.ExtTreeMap.contains_eq_isSome_getElem?, htask]
      split
      · rename_i hi
        rw [← hi, hs]
        rfl
      · rfl
    rw [step, step, hcontains]
    split
    · rfl
    · rename_i hi
      refine resume_withTask ?_ p
      rintro rfl
      rw [Std.ExtTreeMap.contains_eq_isSome_getElem?] at hi
      exact hi (Option.isSome_of_eq_some hs)
  | advance i =>
    have hi : i ≠ id := fun h => ha (by rw [h])
    exact advance_withTask_of_ne hi fun s => hother i s hi
  | proceed role => exact proceed_withTask role
  | deliver role refusal => exact deliver_withTask role refusal
  | changeStore store => rfl
  | changeGraph graph => rfl

theorem withTask_self (ht : w.task? id = some t) : w.withTask id t w.sink = w := by
  have htasks : w.tasks.insert id t = w.tasks := by
    refine Std.ExtTreeMap.ext_getElem? fun i => ?_
    simp only [Std.ExtTreeMap.getElem?_insert, Std.compare_eq_iff_eq]
    split
    · rename_i hi
      rw [← hi]
      exact ht.symm
    · rfl
  rw [withTask, htasks]

theorem task?_step_of_ne [WhitelistStore σ] {a : Action σ ρ} (hother : w.SilentBut id)
    (ht : w.task? id = some t) (ha : a ≠ .advance id) :
    (w.step a).task? id = some (w.told id t a) := by
  have hstep : (w.withTask id t w.sink).step a =
      (w.step a).withTask id (w.told id t a) w.sink := step_withTask hother ht ha
  rw [withTask_self ht] at hstep
  rw [hstep, task?_withTask_self]

/-! ## The sequel -/

variable {k : ρ → Procedure ρ}

theorem told_andThen (a : Action σ ρ) :
    w.told id (t.andThen k) a = (w.told id t a).andThen k := by
  cases a with
  | deliver role refusal =>
    simp only [told]
    split
    · rename_i generation answer waiters hflight
      split
      · cases Cache.outcome answer refusal <;> rfl
      · rfl
    · rfl
  | _ => rfl

theorem onlyAsks_told (h : t.procedure.OnlyAsks) (a : Action σ ρ) :
    (w.told id t a).procedure.OnlyAsks := by
  cases a with
  | deliver role refusal =>
    simp only [told]
    split
    · rename_i generation answer waiters hflight
      split
      · cases Cache.outcome answer refusal with
        | ok whitelist => exact h
        | error e => exact trivial
      · exact h
    · exact h
  | _ => exact h

theorem setTask_andThen (s s' : Task ρ) :
    (w.withTask id s sink).setTask id (s'.andThen k) =
      (w.setTask id s').withTask id (s'.andThen k) sink := by
  rw [setTask_withTask_self, withTask_setTask, withTask_setTask]

theorem request_andThen {role : Role} {next : Whitelist → Procedure ρ} {stage : RequestStage}
    (ht : w.task? id = some ⟨.whitelist role next, stage⟩) (hasks : ∀ v, (next v).OnlyAsks) :
    ∃ t', (w.request id role next stage).task? id = some t' ∧ t'.procedure.OnlyAsks ∧
      (w.withTask id (Task.andThen ⟨.whitelist role next, stage⟩ k) sink).request id role
          (fun v => (next v).andThen k) stage =
        (w.request id role next stage).withTask id (t'.andThen k) sink := by
  let t (stage : RequestStage) : Task ρ := ⟨.whitelist role next, stage⟩
  have htask (w : World σ ρ) (stage : RequestStage) :
      (w.setTask id (t stage)).task? id = some (t stage) := by
    rw [task?_setTask, if_pos rfl]
  cases stage with
  | probing =>
    have hcache : (w.withTask id (Task.andThen ⟨.whitelist role next, .probing⟩ k) sink).cache =
      w.cache := rfl
    cases hentry : w.cache.entry? role with
    | some entry =>
      simp only [request, hcache, hentry]
      exact ⟨t (.holding entry), htask w _, hasks, setTask_andThen _ (t (.holding entry))⟩
    | none =>
      simp only [request, hcache, hentry]
      exact ⟨t .waiting, htask _ _, hasks,
        setTask_andThen (w := { w with cache := w.cache.join role id }) _ (t .waiting)⟩
  | waiting => exact ⟨t .waiting, ht, hasks, rfl⟩
  | holding entry =>
    exact ⟨t (.counted entry (w.cache.counter role)), htask w _, hasks,
      setTask_andThen _ (t (.counted entry (w.cache.counter role)))⟩
  | counted entry counter =>
    by_cases hgen : entry.generation = ⟨w.cache.epoch, counter⟩
    · simp only [request, withTask, hgen, if_true]
      refine ⟨Task.start (next entry.whitelist), ?_, hasks _, setTask_andThen _ (Task.start _)⟩
      rw [task?_resume, if_pos rfl]
    · simp only [request, withTask, hgen, if_false]
      exact ⟨t (.outdated entry), htask w _, hasks, setTask_andThen _ (t (.outdated entry))⟩
  | outdated entry =>
    exact ⟨t .probing, htask _ _, hasks,
      setTask_andThen (w := { w with cache := w.cache.discard (.role role) }) _ (t .probing)⟩

theorem advance_of_whitelist [WhitelistStore σ] {role : Role} {next : Whitelist → Procedure ρ}
    {stage : RequestStage} (h : w.task? id = some ⟨.whitelist role next, stage⟩) :
    w.advance id = w.request id role next stage := by
  rw [advance, h]

theorem advance_of_refused [WhitelistStore σ] {user : Role} {next : List Role → Procedure ρ}
    {stage : RequestStage} {e : Error} (h : w.task? id = some ⟨.closure user next, stage⟩)
    (hroles : w.rolesOf user = .error e) : w.advance id = w.resume id (.failed e) := by
  simp [advance, h, hroles]

theorem advance_of_residentFirst [WhitelistStore σ] {roles : List Role}
    {next : List Role → Procedure ρ} {stage : RequestStage}
    (h : w.task? id = some ⟨.residentFirst roles next, stage⟩) :
    w.advance id = w.resume id (next (w.residentFirst roles)) := by
  rw [advance, h]
  rfl

theorem advance_withTask_appended [WhitelistStore σ] {line : String} {next : Procedure ρ}
    {stage : RequestStage} {sink' : Sink} (h : sink.append line = .ok sink') :
    (w.withTask id ⟨.append line next, stage⟩ sink).advance id =
      w.withTask id (Task.start next) sink' := by
  have hsink : (w.withTask id ⟨.append line next, stage⟩ sink).sink.append line = .ok sink' := h
  have htask : (w.withTask id ⟨.append line next, stage⟩ sink).task? id =
      some ⟨.append line next, stage⟩ := task?_withTask_self
  simp only [advance, htask, hsink]
  show (w.withTask id ⟨.append line next, stage⟩ sink').resume id next = _
  exact resume_withTask_self next

theorem advance_withTask_unappended [WhitelistStore σ] {line : String} {next : Procedure ρ}
    {stage : RequestStage} {e : Error} (h : sink.append line = .error e) :
    (w.withTask id ⟨.append line next, stage⟩ sink).advance id =
      w.withTask id (Task.start (.failed e)) sink := by
  have hsink : (w.withTask id ⟨.append line next, stage⟩ sink).sink.append line = .error e := h
  have htask : (w.withTask id ⟨.append line next, stage⟩ sink).task? id =
      some ⟨.append line next, stage⟩ := task?_withTask_self
  simp only [advance, htask, hsink]
  exact resume_withTask_self (.failed e)

/-- A question of the task is answered alike, whatever comes after it. -/
theorem advance_andThen [WhitelistStore σ] (ht : w.task? id = some t)
    (hasks : t.procedure.OnlyAsks) (hover : t.procedure.isOver = false) :
    ∃ t', (w.advance id).task? id = some t' ∧ t'.procedure.OnlyAsks ∧
      (w.withTask id (t.andThen k) sink).advance id =
        (w.advance id).withTask id (t'.andThen k) sink := by
  have htask : (w.withTask id (t.andThen k) sink).task? id = some (t.andThen k) :=
    task?_withTask_self
  have hresumed (p : Procedure ρ) : (w.resume id p).task? id = some (Task.start p) := by
    rw [task?_resume, if_pos rfl]
  obtain ⟨procedure, stage⟩ := t
  cases procedure with
  | done value => cases hover
  | failed e => cases hover
  | closure user next =>
    cases hroles : w.rolesOf user with
    | ok roles =>
      rw [advance_of_closure ht hroles, advance_of_closure htask hroles]
      exact ⟨Task.start (next roles), hresumed _, hasks roles, setTask_andThen _ (Task.start _)⟩
    | error e =>
      rw [advance_of_refused ht hroles, advance_of_refused htask hroles]
      exact ⟨Task.start (.failed e), hresumed _, trivial,
        setTask_andThen _ (Task.start (.failed e))⟩
  | residentFirst roles next =>
    rw [advance_of_residentFirst ht, advance_of_residentFirst htask]
    exact ⟨Task.start (next (w.residentFirst roles)), hresumed _, hasks _,
      setTask_andThen _ (Task.start _)⟩
  | whitelist role next =>
    rw [advance_of_whitelist ht, advance_of_whitelist htask]
    exact request_andThen ht hasks
  | setup next => exact hasks.elim
  | append line next => exact hasks.elim
  | bump scope next => exact hasks.elim
  | discard scope next => exact hasks.elim

/-- While the task only asks, a step does the same to it with and without its sequel. -/
theorem step_andThen [WhitelistStore σ] {a : Action σ ρ} (hother : w.SilentBut id)
    (ht : w.task? id = some t) (hasks : t.procedure.OnlyAsks)
    (hown : a = .advance id → t.procedure.isOver = false) :
    ∃ t', (w.step a).task? id = some t' ∧ t'.procedure.OnlyAsks ∧
      (w.withTask id (t.andThen k) sink).step a =
        (w.step a).withTask id (t'.andThen k) sink := by
  by_cases ha : a = .advance id
  · subst ha
    exact advance_andThen ht hasks (hown rfl)
  · refine ⟨w.told id t a, task?_step_of_ne hother ht ha, onlyAsks_told hasks a, ?_⟩
    rw [step_withTask hother ht ha, told_andThen]

/-! ## A task that is over -/

variable [WhitelistStore σ] {s : Task ρ}

omit [WhitelistStore σ] in
theorem told_of_over (hwait : w.WaitersWait) (hs : w.task? id = some s)
    (hover : s.procedure.isOver = true) (a : Action σ ρ) : w.told id t a = t := by
  cases a with
  | deliver role refusal =>
    rw [told]
    split
    · rename_i generation answer waiters hflight
      refine if_neg fun hid => ?_
      obtain ⟨next, rfl⟩ := hwait.eq_waiting hs hflight hid
      cases hover
    · rfl
  | _ => rfl

/-- Nothing moves a task that is over, whichever of two results it has. -/
theorem step_of_over {a : Action σ ρ} (hwait : w.WaitersWait) (hother : w.SilentBut id)
    (hs : w.task? id = some s) (hover : s.procedure.isOver = true)
    (hover' : t.procedure.isOver = true) :
    (w.step a).task? id = some s ∧
      (w.withTask id t sink).step a = (w.step a).withTask id t sink := by
  by_cases ha : a = .advance id
  · subst ha
    rw [step, step, advance_of_over hs hover, advance_of_over task?_withTask_self hover']
    exact ⟨hs, rfl⟩
  · rw [task?_step_of_ne hother hs ha, step_withTask hother hs ha, told_of_over hwait hs hover,
      told_of_over hwait hs hover]
    exact ⟨rfl, rfl⟩

end World
end AuditTrail
