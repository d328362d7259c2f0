import AuditTrail.Proofs.World.Step

/-!
# What one step does to what the tasks share

The loads in flight (`flight?_step`), the entries of the cache (`entry?_step`), the generations and
the graph.
-/

namespace AuditTrail.World

variable {σ ρ : Type} [WhitelistStore σ]

/-! ## The cache -/

inductive LoadMoves (w : World σ ρ) (role : Role) : Cache.LoadStage → Cache.LoadStage → Prop
  | counted : LoadMoves w role .begun (.counted (w.cache.counter role))
  | stamped {counter} : LoadMoves w role (.counted counter) (.stamped ⟨w.cache.epoch, counter⟩)
  | asked {generation} : LoadMoves w role (.stamped generation) (.asked generation)
  | answered {generation} :
    LoadMoves w role (.asked generation) (.answered generation (w.stored role))

/-- What a step makes of the cache. -/
inductive Touches (w : World σ ρ) : Action σ ρ → Cache → Prop
  | nothing {a} : Touches w a w.cache
  | joins {id role next} (h : w.task? id = some ⟨.whitelist role next, .probing⟩)
    (habsent : w.cache.entry? role = none) : Touches w (.advance id) (w.cache.join role id)
  | drops {id role next entry} (h : w.task? id = some ⟨.whitelist role next, .outdated entry⟩) :
    Touches w (.advance id) (w.cache.discard (.role role))
  | discards {id scope next stage} (h : w.task? id = some ⟨.discard scope next, stage⟩) :
    Touches w (.advance id) (w.cache.discard scope)
  | bumps {id scope next stage} (h : w.task? id = some ⟨.bump scope next, stage⟩) :
    Touches w (.advance id) (w.cache.bump scope)
  | goesOn {role stage stage' waiters} (h : w.cache.flight? role = some ⟨stage, waiters⟩)
    (hmoves : LoadMoves w role stage stage') :
    Touches w (.proceed role) (w.cache.setStage role stage')
  | keeps {role refusal generation answer waiters whitelist}
    (h : w.cache.flight? role = some ⟨.answered generation answer, waiters⟩)
    (hok : Cache.outcome answer refusal = .ok whitelist) :
    Touches w (.deliver role refusal) ((w.cache.land role).keep role ⟨generation, whitelist⟩)
  | fails {role refusal generation answer waiters e}
    (h : w.cache.flight? role = some ⟨.answered generation answer, waiters⟩)
    (herror : Cache.outcome answer refusal = .error e) :
    Touches w (.deliver role refusal) (w.cache.land role)

theorem touches_advance (w : World σ ρ) (id : TaskId) :
    w.Touches (.advance id) (w.advance id).cache := by
  cases htask : w.task? id with
  | none =>
    rw [advance, htask]
    exact .nothing
  | some t =>
    obtain ⟨procedure, stage⟩ := t
    cases procedure with
    | done value =>
      rw [advance, htask]
      exact .nothing
    | failed e =>
      rw [advance, htask]
      exact .nothing
    | closure user next =>
      cases hroles : w.rolesOf user <;> simp [advance, htask, hroles] <;> exact .nothing
    | residentFirst roles next =>
      simp only [advance, htask, cache_resume]
      exact .nothing
    | whitelist role next =>
      have hadvance : w.advance id = w.request id role next stage := by rw [advance, htask]
      rw [hadvance]
      cases stage with
      | probing =>
        cases hentry : w.cache.entry? role with
        | some entry =>
          simp only [request, hentry, cache_setTask]
          exact .nothing
        | none =>
          simp only [request, hentry, cache_setTask]
          exact .joins htask hentry
      | waiting => exact .nothing
      | holding entry => exact .nothing
      | counted entry counter =>
        by_cases hgen : entry.generation = ⟨w.cache.epoch, counter⟩ <;>
          simp [request, hgen] <;> exact .nothing
      | outdated entry => exact .drops htask
    | setup next =>
      cases hanswer : (WhitelistStore.setup w.store).1 <;>
        simp [advance, htask, prepare, hanswer] <;> exact .nothing
    | append line next =>
      cases hsink : w.sink.append line <;> simp [advance, htask, hsink] <;> exact .nothing
    | bump scope next =>
      simp only [advance, htask, cache_resume]
      exact .bumps htask
    | discard scope next =>
      simp only [advance, htask, cache_resume]
      exact .discards htask

theorem touches_proceed (w : World σ ρ) (role : Role) :
    w.Touches (.proceed role) (w.proceed role).cache := by
  cases hflight : w.cache.flight? role with
  | none =>
    rw [proceed, hflight]
    exact .nothing
  | some flight =>
    obtain ⟨stage, waiters⟩ := flight
    rw [proceed, hflight]
    cases stage with
    | begun => exact .goesOn hflight .counted
    | counted counter => exact .goesOn hflight .stamped
    | stamped generation => exact .goesOn hflight .asked
    | asked generation => exact .goesOn hflight .answered
    | answered generation answer => exact .nothing

theorem touches_deliver (w : World σ ρ) (role : Role) (refusal : Option Error) :
    w.Touches (.deliver role refusal) (w.deliver role refusal).cache := by
  rcases answered_or_deliver_eq w role refusal with ⟨generation, answer, waiters, hflight⟩ | heq
  · rw [deliver_of_answered hflight]
    cases hout : Cache.outcome answer refusal with
    | ok whitelist => exact .keeps hflight hout
    | error e => exact .fails hflight hout
  · rw [heq]
    exact .nothing

theorem touches_step (w : World σ ρ) (a : Action σ ρ) : w.Touches a (w.step a).cache := by
  cases a with
  | spawn id p =>
    rw [step]
    split <;> exact .nothing
  | advance id => exact touches_advance w id
  | proceed role => exact touches_proceed w role
  | deliver role refusal => exact touches_deliver w role refusal
  | changeStore store => exact .nothing
  | changeGraph graph => exact .nothing

theorem cache_advance_of_bump {w : World σ ρ} {id : TaskId} {scope : Scope} {next : Procedure ρ}
    {stage : RequestStage} (h : w.task? id = some ⟨.bump scope next, stage⟩) :
    (w.advance id).cache = w.cache.bump scope := by
  simp [advance, h]

/-! ## What is looked up -/

/-- Where the load of a role that is in flight after a step comes from: it was there before, a task
has joined it or begun it, or it has gone on. -/
theorem flight?_step {w : World σ ρ} {a : Action σ ρ} {role : Role} {f' : Cache.Flight}
    (h : (w.step a).cache.flight? role = some f') :
    w.cache.flight? role = some f' ∨
      (∃ id next, a = .advance id ∧ w.task? id = some ⟨.whitelist role next, .probing⟩ ∧
        w.cache.entry? role = none ∧
        f' = ⟨((w.cache.flight? role).getD ⟨.begun, []⟩).stage,
          ((w.cache.flight? role).getD ⟨.begun, []⟩).waiters ++ [id]⟩) ∨
      ∃ f, a = .proceed role ∧ w.cache.flight? role = some f ∧ f'.waiters = f.waiters ∧
        w.LoadMoves role f.stage f'.stage := by
  have htouch := touches_step w a
  generalize (w.step a).cache = c at h htouch
  cases htouch with
  | nothing => exact Or.inl h
  | @joins id r next htask habsent =>
    rw [Cache.flight?_join] at h
    split at h
    · rename_i hr
      subst hr
      cases h
      exact Or.inr (Or.inl ⟨id, next, rfl, htask, habsent, rfl⟩)
    · exact Or.inl h
  | drops htask =>
    rw [Cache.flight?_discard] at h
    exact Or.inl h
  | discards htask =>
    rw [Cache.flight?_discard] at h
    exact Or.inl h
  | bumps htask =>
    rw [Cache.flight?_bump] at h
    exact Or.inl h
  | @goesOn r stage stage' waiters hf hmoves =>
    rw [Cache.flight?_setStage] at h
    split at h
    · rename_i hr
      subst hr
      rw [hf] at h
      cases h
      exact Or.inr (Or.inr ⟨_, rfl, hf, rfl, hmoves⟩)
    · exact Or.inl h
  | keeps hf hok =>
    rw [Cache.flight?_keep, Cache.flight?_land] at h
    split at h
    · cases h
    · exact Or.inl h
  | fails hf herror =>
    rw [Cache.flight?_land] at h
    split at h
    · cases h
    · exact Or.inl h

/-- Where an entry that is resident after a step comes from: it was there before, or its load has
just ended. -/
theorem entry?_step {w : World σ ρ} {a : Action σ ρ} {role : Role} {entry : Cache.Entry}
    (h : (w.step a).cache.entry? role = some entry) :
    w.cache.entry? role = some entry ∨
      ∃ refusal answer waiters, a = .deliver role refusal ∧
        w.cache.flight? role = some ⟨.answered entry.generation answer, waiters⟩ ∧
        Cache.outcome answer refusal = .ok entry.whitelist := by
  have htouch := touches_step w a
  generalize (w.step a).cache = c at h htouch
  cases htouch with
  | nothing => exact Or.inl h
  | joins htask habsent =>
    rw [Cache.entry?_join] at h
    exact Or.inl h
  | drops htask =>
    rw [Cache.entry?_discard] at h
    split at h
    · cases h
    · exact Or.inl h
  | discards htask =>
    rw [Cache.entry?_discard] at h
    split at h
    · cases h
    · exact Or.inl h
  | bumps htask =>
    rw [Cache.entry?_bump] at h
    exact Or.inl h
  | goesOn hf hmoves =>
    rw [Cache.entry?_setStage] at h
    exact Or.inl h
  | keeps hf hok =>
    rw [Cache.entry?_keep, Cache.entry?_land] at h
    split at h
    · rename_i hkept
      cases h
      obtain ⟨-, rfl⟩ := hkept
      exact Or.inr ⟨_, _, _, rfl, hf, hok⟩
    · exact Or.inl h
  | fails hf herror =>
    rw [Cache.entry?_land] at h
    exact Or.inl h

theorem generation_step (w : World σ ρ) (a : Action σ ρ) (role : Role) :
    w.cache.counter role ≤ (w.step a).cache.counter role ∧
      w.cache.epoch ≤ (w.step a).cache.epoch := by
  have htouch := touches_step w a
  generalize (w.step a).cache = c at htouch ⊢
  cases htouch with
  | bumps htask =>
    rw [Cache.counter_bump, Cache.epoch_bump]
    constructor <;> split <;> omega
  | _ => simp

/-! ## A load by itself -/

theorem entry?_proceed (w : World σ ρ) (role r : Role) :
    (w.proceed role).cache.entry? r = w.cache.entry? r := by
  unfold proceed
  split <;> simp

theorem flight?_proceed {w : World σ ρ} {role : Role} {stage : Cache.LoadStage}
    {waiters : List TaskId} (h : w.cache.flight? role = some ⟨stage, waiters⟩) :
    ∃ stage', (w.proceed role).cache.flight? role = some ⟨stage', waiters⟩ ∧
      (w.LoadMoves role stage stage' ∨
        stage' = stage ∧ ∃ generation answer, stage = .answered generation answer) := by
  rw [proceed, h]
  cases stage with
  | begun =>
    refine ⟨_, ?_, Or.inl .counted⟩
    simp [Cache.flight?_setStage, h]
  | counted counter =>
    refine ⟨_, ?_, Or.inl .stamped⟩
    simp [Cache.flight?_setStage, h]
  | stamped generation =>
    refine ⟨_, ?_, Or.inl .asked⟩
    simp [Cache.flight?_setStage, h]
  | asked generation =>
    refine ⟨_, ?_, Or.inl .answered⟩
    simp [Cache.flight?_setStage, h, stored]
  | answered generation answer => exact ⟨_, h, Or.inr ⟨rfl, generation, answer, rfl⟩⟩

/-! ## The graph -/

omit [WhitelistStore σ] in
theorem graph_request (w : World σ ρ) (id : TaskId) (role : Role) (next : Whitelist → Procedure ρ)
    (stage : RequestStage) :
    (w.request id role next stage).graph = w.graph ∧
      (w.request id role next stage).graphFault = w.graphFault := by
  cases stage with
  | probing =>
    cases hentry : w.cache.entry? role <;> simp only [request, hentry] <;> exact ⟨rfl, rfl⟩
  | waiting => exact ⟨rfl, rfl⟩
  | holding entry => exact ⟨rfl, rfl⟩
  | counted entry counter =>
    by_cases hgen : entry.generation = ⟨w.cache.epoch, counter⟩ <;>
      simp only [request, hgen, if_true, if_false] <;> exact ⟨rfl, rfl⟩
  | outdated entry => exact ⟨rfl, rfl⟩

theorem graph_advance (w : World σ ρ) (id : TaskId) :
    (w.advance id).graph = w.graph ∧ (w.advance id).graphFault = w.graphFault := by
  cases htask : w.task? id with
  | none =>
    rw [advance, htask]
    exact ⟨rfl, rfl⟩
  | some t =>
    obtain ⟨procedure, stage⟩ := t
    simp only [advance, htask]
    cases procedure with
    | done value => exact ⟨rfl, rfl⟩
    | failed e => exact ⟨rfl, rfl⟩
    | closure user next =>
      simp only
      cases w.rolesOf user <;> exact ⟨rfl, rfl⟩
    | residentFirst roles next => exact ⟨rfl, rfl⟩
    | whitelist role next => exact graph_request w id role next stage
    | setup next =>
      simp only [prepare]
      cases (WhitelistStore.setup w.store).1 <;> exact ⟨rfl, rfl⟩
    | append line next =>
      simp only
      cases w.sink.append line <;> exact ⟨rfl, rfl⟩
    | bump scope next => exact ⟨rfl, rfl⟩
    | discard scope next => exact ⟨rfl, rfl⟩

theorem graph_proceed (w : World σ ρ) (role : Role) :
    (w.proceed role).graph = w.graph ∧ (w.proceed role).graphFault = w.graphFault := by
  unfold proceed
  split <;> exact ⟨rfl, rfl⟩

theorem graph_step (w : World σ ρ) {a : Action σ ρ} (h : ∀ graph, a ≠ .changeGraph graph) :
    (w.step a).graph = w.graph := by
  cases a with
  | spawn id p =>
    rw [step]
    split <;> rfl
  | advance id => exact (graph_advance w id).1
  | proceed role => exact (graph_proceed w role).1
  | deliver role refusal => exact (deliver_frame w role refusal).1
  | changeStore store => rfl
  | changeGraph graph => exact absurd rfl (h graph)

end AuditTrail.World
