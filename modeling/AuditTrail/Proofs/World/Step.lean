import AuditTrail.Proofs.Cache.Lookup
import AuditTrail.World

/-!
# What one step does to a task

`Moves` says it once for all actions.  What holds of tasks in every run is proved from it, without
opening `step` again.
-/

namespace AuditTrail

namespace Cache

/-- What a load comes to: the answer of the store, unless the load is refused. -/
def outcome (answer : Except Error Whitelist) : Option Error → Except Error Whitelist
  | some e => .error e
  | none => answer

theorem eq_ok_of_outcome {answer : Except Error Whitelist} {refusal : Option Error}
    {whitelist : Whitelist} (h : outcome answer refusal = .ok whitelist) :
    answer = .ok whitelist := by
  cases refusal with
  | none => exact h
  | some e => cases h

end Cache

namespace World

variable {σ ρ : Type}

/-! ## Looking up tasks -/

theorem task?_setTask (w : World σ ρ) (id i : TaskId) (t : Task ρ) :
    (w.setTask id t).task? i = if id = i then some t else w.task? i := by
  simp only [setTask, task?, Std.ExtTreeMap.getElem?_insert, Std.compare_eq_iff_eq]

theorem task?_resume (w : World σ ρ) (id i : TaskId) (p : Procedure ρ) :
    (w.resume id p).task? i = if id = i then some (Task.start p) else w.task? i :=
  task?_setTask w id i (Task.start p)

@[simp] theorem cache_setTask (w : World σ ρ) (id : TaskId) (t : Task ρ) :
    (w.setTask id t).cache = w.cache := rfl

@[simp] theorem cache_resume (w : World σ ρ) (id : TaskId) (p : Procedure ρ) :
    (w.resume id p).cache = w.cache := rfl

/-! ## The end of a load -/

section Deliver

variable {w : World σ ρ} {role : Role} {generation : Generation}
  {answer : Except Error Whitelist} {waiters : List TaskId} {refusal : Option Error}

theorem deliver_of_not_answered
    (h : ∀ generation answer waiters,
      w.cache.flight? role ≠ some ⟨.answered generation answer, waiters⟩) :
    w.deliver role refusal = w := by
  unfold deliver
  split
  · rename_i g a ws hflight
    exact absurd hflight (h g a ws)
  · rfl

theorem deliver_of_answered
    (h : w.cache.flight? role = some ⟨.answered generation answer, waiters⟩) :
    w.deliver role refusal =
      { w with
        cache := match Cache.outcome answer refusal with
          | .ok whitelist => (w.cache.land role).keep role ⟨generation, whitelist⟩
          | .error _ => w.cache.land role
        tasks := w.tasks.map fun id t =>
          if id ∈ waiters then t.receive generation (Cache.outcome answer refusal) else t } := by
  rw [deliver, h]
  cases refusal <;> rfl

theorem task?_deliver
    (h : w.cache.flight? role = some ⟨.answered generation answer, waiters⟩) (id : TaskId) :
    (w.deliver role refusal).task? id = (w.task? id).map fun t =>
      if id ∈ waiters then t.receive generation (Cache.outcome answer refusal) else t := by
  rw [deliver_of_answered h]
  simp only [task?, Std.ExtTreeMap.getElem?_map]

theorem flight?_deliver
    (h : w.cache.flight? role = some ⟨.answered generation answer, waiters⟩) (r : Role) :
    (w.deliver role refusal).cache.flight? r = if role = r then none else w.cache.flight? r := by
  rw [deliver_of_answered h]
  cases Cache.outcome answer refusal <;> simp [Cache.flight?_land]

theorem entry?_deliver_ok {whitelist : Whitelist}
    (h : w.cache.flight? role = some ⟨.answered generation answer, waiters⟩)
    (hok : Cache.outcome answer refusal = .ok whitelist) (r : Role) :
    (w.deliver role refusal).cache.entry? r =
      if w.cache.retains = true ∧ role = r then some ⟨generation, whitelist⟩
      else w.cache.entry? r := by
  rw [deliver_of_answered h, hok]
  exact Cache.entry?_keep (w.cache.land role) role r ⟨generation, whitelist⟩

theorem entry?_deliver_error {e : Error}
    (h : w.cache.flight? role = some ⟨.answered generation answer, waiters⟩)
    (herror : Cache.outcome answer refusal = .error e) (r : Role) :
    (w.deliver role refusal).cache.entry? r = w.cache.entry? r := by
  rw [deliver_of_answered h, herror]
  simp

theorem answered_or_deliver_eq (w : World σ ρ) (role : Role) (refusal : Option Error) :
    (∃ generation answer waiters,
        w.cache.flight? role = some ⟨.answered generation answer, waiters⟩) ∨
      w.deliver role refusal = w := by
  by_cases h : ∃ generation answer waiters,
      w.cache.flight? role = some ⟨.answered generation answer, waiters⟩
  · exact Or.inl h
  · refine Or.inr (deliver_of_not_answered fun generation answer waiters hflight => ?_)
    exact h ⟨generation, answer, waiters, hflight⟩

theorem counter_deliver (w : World σ ρ) (role r : Role) (refusal : Option Error) :
    (w.deliver role refusal).cache.counter r = w.cache.counter r := by
  rcases answered_or_deliver_eq w role refusal with ⟨generation, answer, waiters, h⟩ | h
  · rw [deliver_of_answered h]
    cases Cache.outcome answer refusal <;> simp
  · rw [h]

theorem epoch_deliver (w : World σ ρ) (role : Role) (refusal : Option Error) :
    (w.deliver role refusal).cache.epoch = w.cache.epoch := by
  rcases answered_or_deliver_eq w role refusal with ⟨generation, answer, waiters, h⟩ | h
  · rw [deliver_of_answered h]
    cases Cache.outcome answer refusal <;> simp
  · rw [h]

theorem deliver_frame (w : World σ ρ) (role : Role) (refusal : Option Error) :
    (w.deliver role refusal).graph = w.graph ∧
      (w.deliver role refusal).graphFault = w.graphFault ∧
      (w.deliver role refusal).store = w.store := by
  rcases answered_or_deliver_eq w role refusal with ⟨generation, answer, waiters, h⟩ | h
  · rw [deliver_of_answered h]
    exact ⟨rfl, rfl, rfl⟩
  · rw [h]
    exact ⟨rfl, rfl, rfl⟩

end Deliver

/-! ## Tasks -/

def residentFirst (w : World σ ρ) (roles : List Role) : List Role :=
  (roles.partition w.cache.isResident).1 ++ (roles.partition w.cache.isResident).2

theorem residentFirst_perm (w : World σ ρ) (roles : List Role) :
    (w.residentFirst roles).Perm roles := by
  rw [residentFirst, List.partition_eq_filter_filter]
  exact List.filter_append_perm _ _

theorem mem_residentFirst {w : World σ ρ} {roles : List Role} {role : Role} :
    role ∈ w.residentFirst roles ↔ role ∈ roles :=
  (residentFirst_perm w roles).mem_iff

variable [WhitelistStore σ]

def stored (w : World σ ρ) (role : Role) : Except Error Whitelist :=
  (WhitelistStore.load w.store role).1

/-- How an action moves a task.  A task is moved by its own steps and by the end of the load that it
waits for. -/
inductive Moves (w : World σ ρ) (id : TaskId) : Action σ ρ → Task ρ → Task ρ → Prop
  | toldRoles {user next stage roles} (h : w.rolesOf user = .ok roles) :
    Moves w id (.advance id) ⟨.closure user next, stage⟩ (Task.start (next roles))
  | refusedRoles {user next stage e} (h : w.rolesOf user = .error e) :
    Moves w id (.advance id) ⟨.closure user next, stage⟩ (Task.start (.failed e))
  | sorted {roles next stage} :
    Moves w id (.advance id) ⟨.residentFirst roles next, stage⟩
      (Task.start (next (w.residentFirst roles)))
  | found {role next entry} (h : w.cache.entry? role = some entry) :
    Moves w id (.advance id) ⟨.whitelist role next, .probing⟩ ⟨.whitelist role next, .holding entry⟩
  | joined {role next} (h : w.cache.entry? role = none) :
    Moves w id (.advance id) ⟨.whitelist role next, .probing⟩ ⟨.whitelist role next, .waiting⟩
  | counted {role next entry} :
    Moves w id (.advance id) ⟨.whitelist role next, .holding entry⟩
      ⟨.whitelist role next, .counted entry (w.cache.counter role)⟩
  | granted {role next entry counter} (h : entry.generation = ⟨w.cache.epoch, counter⟩) :
    Moves w id (.advance id) ⟨.whitelist role next, .counted entry counter⟩
      (Task.start (next entry.whitelist))
  | refuted {role next entry counter} (h : entry.generation ≠ ⟨w.cache.epoch, counter⟩) :
    Moves w id (.advance id) ⟨.whitelist role next, .counted entry counter⟩
      ⟨.whitelist role next, .outdated entry⟩
  | retried {role next entry} :
    Moves w id (.advance id) ⟨.whitelist role next, .outdated entry⟩
      ⟨.whitelist role next, .probing⟩
  | prepared {next stage done} (h : (WhitelistStore.setup w.store).1 = .ok done) :
    Moves w id (.advance id) ⟨.setup next, stage⟩ (Task.start next)
  | unprepared {next stage e} (h : (WhitelistStore.setup w.store).1 = .error e) :
    Moves w id (.advance id) ⟨.setup next, stage⟩ (Task.start (.failed e))
  | appended {line next stage sink} (h : w.sink.append line = .ok sink) :
    Moves w id (.advance id) ⟨.append line next, stage⟩ (Task.start next)
  | unappended {line next stage e} (h : w.sink.append line = .error e) :
    Moves w id (.advance id) ⟨.append line next, stage⟩ (Task.start (.failed e))
  | bumped {scope next stage} :
    Moves w id (.advance id) ⟨.bump scope next, stage⟩ (Task.start next)
  | discarded {scope next stage} :
    Moves w id (.advance id) ⟨.discard scope next, stage⟩ (Task.start next)
  | received {role refusal generation answer waiters t}
    (h : w.cache.flight? role = some ⟨.answered generation answer, waiters⟩) (hid : id ∈ waiters) :
    Moves w id (.deliver role refusal) t (t.receive generation (Cache.outcome answer refusal))

theorem advance_of_closure {w : World σ ρ} {id : TaskId} {user : Role}
    {next : List Role → Procedure ρ} {stage : RequestStage} {roles : List Role}
    (h : w.task? id = some ⟨.closure user next, stage⟩) (hroles : w.rolesOf user = .ok roles) :
    w.advance id = w.resume id (next roles) := by
  simp [advance, h, hroles]

theorem task?_request {w : World σ ρ} {id : TaskId} {role : Role} {next : Whitelist → Procedure ρ}
    {stage : RequestStage} (h : w.task? id = some ⟨.whitelist role next, stage⟩) :
    ∃ t, (w.request id role next stage).task? id = some t ∧
      (t = ⟨.whitelist role next, stage⟩ ∧ stage = .waiting ∨
        w.Moves id (.advance id) ⟨.whitelist role next, stage⟩ t) := by
  cases stage with
  | probing =>
    cases hentry : w.cache.entry? role with
    | some entry =>
      refine ⟨⟨.whitelist role next, .holding entry⟩, ?_, Or.inr (.found hentry)⟩
      simp [request, hentry, task?_setTask]
    | none =>
      refine ⟨⟨.whitelist role next, .waiting⟩, ?_, Or.inr (.joined hentry)⟩
      simp [request, hentry, task?_setTask]
  | waiting => exact ⟨_, h, Or.inl ⟨rfl, rfl⟩⟩
  | holding entry =>
    refine ⟨_, ?_, Or.inr .counted⟩
    simp [request, task?_setTask]
  | counted entry counter =>
    by_cases hgen : entry.generation = ⟨w.cache.epoch, counter⟩
    · refine ⟨_, ?_, Or.inr (.granted hgen)⟩
      simp [request, hgen, task?_resume]
    · refine ⟨_, ?_, Or.inr (.refuted hgen)⟩
      simp [request, hgen, task?_setTask]
  | outdated entry =>
    refine ⟨_, ?_, Or.inr .retried⟩
    simp [request, task?_setTask]

/-- The own step of a task moves it unless it is over or waits. -/
theorem task?_advance {w : World σ ρ} {id : TaskId} {t : Task ρ} (h : w.task? id = some t) :
    ∃ t', (w.advance id).task? id = some t' ∧
      (t' = t ∧ (t.procedure.isOver = true ∨ ∃ role next, t = ⟨.whitelist role next, .waiting⟩) ∨
        w.Moves id (.advance id) t t') := by
  obtain ⟨procedure, stage⟩ := t
  cases procedure with
  | done value => exact ⟨_, by rw [advance, h]; exact h, Or.inl ⟨rfl, Or.inl rfl⟩⟩
  | failed e => exact ⟨_, by rw [advance, h]; exact h, Or.inl ⟨rfl, Or.inl rfl⟩⟩
  | closure user next =>
    cases hroles : w.rolesOf user with
    | ok roles =>
      refine ⟨_, ?_, Or.inr (.toldRoles hroles)⟩
      simp [advance, h, hroles, task?_resume]
    | error e =>
      refine ⟨_, ?_, Or.inr (.refusedRoles hroles)⟩
      simp [advance, h, hroles, task?_resume]
  | residentFirst roles next =>
    refine ⟨_, ?_, Or.inr .sorted⟩
    simp [advance, h, residentFirst, task?_resume]
  | whitelist role next =>
    have hadvance : w.advance id = w.request id role next stage := by rw [advance, h]
    rw [hadvance]
    obtain ⟨t, ht, ⟨hstays, rfl⟩ | hmoves⟩ := task?_request h
    · exact ⟨t, ht, Or.inl ⟨hstays, Or.inr ⟨role, next, rfl⟩⟩⟩
    · exact ⟨t, ht, Or.inr hmoves⟩
  | setup next =>
    cases hanswer : (WhitelistStore.setup w.store).1 with
    | ok value =>
      refine ⟨_, ?_, Or.inr (.prepared hanswer)⟩
      simp [advance, h, prepare, hanswer, task?_resume]
    | error e =>
      refine ⟨_, ?_, Or.inr (.unprepared hanswer)⟩
      simp [advance, h, prepare, hanswer, task?_resume]
  | append line next =>
    cases hsink : w.sink.append line with
    | ok sink =>
      refine ⟨_, ?_, Or.inr (.appended hsink)⟩
      simp [advance, h, hsink, task?_resume]
    | error e =>
      refine ⟨_, ?_, Or.inr (.unappended hsink)⟩
      simp [advance, h, hsink, task?_resume]
  | bump scope next =>
    refine ⟨_, ?_, Or.inr .bumped⟩
    simp [advance, h, task?_resume]
  | discard scope next =>
    refine ⟨_, ?_, Or.inr .discarded⟩
    simp [advance, h, task?_resume]

theorem task?_advance_of_ne {w : World σ ρ} {id i : TaskId} (h : id ≠ i) :
    (w.advance id).task? i = w.task? i := by
  unfold advance
  split
  · rfl
  · rename_i procedure stage htask
    cases procedure with
    | done value => rfl
    | failed e => rfl
    | closure user next =>
      cases hroles : w.rolesOf user <;> simp [hroles, task?_resume, h]
    | residentFirst roles next => simp [task?_resume, h]
    | whitelist role next =>
      simp only
      cases stage with
      | probing =>
        cases hentry : w.cache.entry? role with
        | some entry => simp [request, hentry, task?_setTask, h]
        | none =>
          simp [request, hentry, task?_setTask, h]
          rfl
      | waiting => rfl
      | holding entry => simp [request, task?_setTask, h]
      | counted entry counter =>
        by_cases hgen : entry.generation = ⟨w.cache.epoch, counter⟩ <;>
          simp [request, hgen, task?_resume, task?_setTask, h]
      | outdated entry =>
        simp [request, task?_setTask, h]
        rfl
    | setup next =>
      cases hanswer : (WhitelistStore.setup w.store).1 <;>
        simp [prepare, hanswer, task?_resume, h] <;> rfl
    | append line next =>
      cases hsink : w.sink.append line with
      | ok sink =>
        simp [hsink, task?_resume, h]
        rfl
      | error e => simp [hsink, task?_resume, h]
    | bump scope next =>
      simp [task?_resume, h]
      rfl
    | discard scope next =>
      simp [task?_resume, h]
      rfl

theorem task?_proceed (w : World σ ρ) (role : Role) (id : TaskId) :
    (w.proceed role).task? id = w.task? id := by
  unfold proceed
  split <;> rfl

theorem task?_step {w : World σ ρ} {id : TaskId} {t : Task ρ} (h : w.task? id = some t)
    (a : Action σ ρ) :
    ∃ t', (w.step a).task? id = some t' ∧ (t' = t ∨ w.Moves id a t t') := by
  cases a with
  | spawn i p =>
    by_cases hi : w.tasks.contains i = true
    · exact ⟨t, by rw [step, if_pos hi]; exact h, Or.inl rfl⟩
    · have hne : i ≠ id := by
        rintro rfl
        refine hi ?_
        rw [Std.ExtTreeMap.contains_eq_isSome_getElem?]
        exact Option.isSome_of_eq_some h
      exact ⟨t, by rw [step, if_neg hi, task?_resume, if_neg hne]; exact h, Or.inl rfl⟩
  | advance i =>
    by_cases hi : i = id
    · subst hi
      obtain ⟨t', ht', ⟨hstays, -⟩ | hmoves⟩ := task?_advance h
      · exact ⟨t', ht', Or.inl hstays⟩
      · exact ⟨t', ht', Or.inr hmoves⟩
    · exact ⟨t, by rw [step, task?_advance_of_ne hi]; exact h, Or.inl rfl⟩
  | proceed role => exact ⟨t, by rw [step, task?_proceed]; exact h, Or.inl rfl⟩
  | deliver role refusal =>
    rcases answered_or_deliver_eq w role refusal with ⟨generation, answer, waiters, hf⟩ | heq
    · rw [step, task?_deliver hf, h]
      by_cases hid : id ∈ waiters
      · exact ⟨_, by rw [Option.map_some, if_pos hid], Or.inr (.received hf hid)⟩
      · exact ⟨t, by rw [Option.map_some, if_neg hid], Or.inl rfl⟩
    · exact ⟨t, by rw [step, heq]; exact h, Or.inl rfl⟩
  | changeStore store => exact ⟨t, h, Or.inl rfl⟩
  | changeGraph graph => exact ⟨t, h, Or.inl rfl⟩

theorem task?_step_of_none {w : World σ ρ} {id : TaskId} (h : w.task? id = none)
    (a : Action σ ρ) :
    (w.step a).task? id = none ∨ ∃ p, a = .spawn id p ∧
      (w.step a).task? id = some (Task.start p) := by
  cases a with
  | spawn i p =>
    by_cases hi : w.tasks.contains i = true
    · exact Or.inl (by rw [step, if_pos hi]; exact h)
    · by_cases hid : i = id
      · subst hid
        exact Or.inr ⟨p, rfl, by rw [step, if_neg hi, task?_resume, if_pos rfl]⟩
      · exact Or.inl (by rw [step, if_neg hi, task?_resume, if_neg hid]; exact h)
  | advance i =>
    by_cases hi : i = id
    · subst hi
      exact Or.inl (by rw [step, advance, h]; exact h)
    · exact Or.inl (by rw [step, task?_advance_of_ne hi]; exact h)
  | proceed role => exact Or.inl (by rw [step, task?_proceed]; exact h)
  | deliver role refusal =>
    rcases answered_or_deliver_eq w role refusal with ⟨generation, answer, waiters, hf⟩ | heq
    · exact Or.inl (by rw [step, task?_deliver hf, h]; rfl)
    · exact Or.inl (by rw [step, heq]; exact h)
  | changeStore store => exact Or.inl h
  | changeGraph graph => exact Or.inl h

end World
end AuditTrail
