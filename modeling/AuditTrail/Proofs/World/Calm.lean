import AuditTrail.Proofs.World.Discarding

/-!
# Runs in which nothing is invalidated

In a calm run tasks only ask, no load is refused, and the store and the graph stay as they are.  All
generations stay as well, so whatever a request gets is up to date and nothing is taken out of the
cache.  Therefore the store is asked for each role once at most (`Comes.unique`).
-/

namespace AuditTrail.World

variable {σ ρ : Type}

/-- What happens in a run that invalidates, changes and refuses nothing. -/
inductive Action.Calm : Action σ ρ → Prop
  | spawn {id : TaskId} {p : Procedure ρ} (h : p.OnlyAsks) : Calm (.spawn id p)
  | advance (id : TaskId) : Calm (.advance id)
  | proceed (role : Role) : Calm (.proceed role)
  | deliver (role : Role) : Calm (.deliver role none)

/-- All tasks only ask. -/
def TasksAsk (w : World σ ρ) : Prop :=
  ∀ id t, w.task? id = some t → t.procedure.OnlyAsks

/-- The whitelist of the role is resident, or its load has at most so many steps to go. -/
def Passed (w : World σ ρ) (role : Role) (left : Nat) : Prop :=
  w.cache.isResident role = true ∨
    ∃ flight, w.cache.flight? role = some flight ∧ flight.stage.left ≤ left

variable [WhitelistStore σ]

/-! ## One step -/

section Step

variable {w v : World σ ρ} {id : TaskId} {a : Action σ ρ} {t t' : Task ρ}

theorem onlyAsks_of_moves (h : w.Moves id a t t') (ht : t.procedure.OnlyAsks) :
    t'.procedure.OnlyAsks := by
  cases h with
  | toldRoles h => exact ht _
  | refusedRoles h => exact trivial
  | sorted => exact ht _
  | found h => exact ht
  | joined h => exact ht
  | counted => exact ht
  | granted h => exact ht _
  | refuted h => exact ht
  | retried => exact ht
  | prepared h => exact ht.elim
  | unprepared h => exact trivial
  | appended h => exact ht.elim
  | unappended h => exact trivial
  | bumped => exact ht.elim
  | discarded => exact ht.elim
  | @received role refusal generation answer waiters _ h hid =>
    cases Cache.outcome answer refusal with
    | ok whitelist => exact ht
    | error e => exact trivial

theorem TasksAsk.step (h : v.TasksAsk) (ha : a.Calm) : (v.step a).TasksAsk := by
  intro id t ht
  cases hbefore : v.task? id with
  | none =>
    rcases task?_step_of_none hbefore a with hnone | ⟨p, rfl, hp⟩
    · rw [hnone] at ht
      cases ht
    · rw [hp, Option.some.injEq] at ht
      subst ht
      cases ha with
      | spawn hp => exact hp
  | some s =>
    obtain ⟨s', hs', rfl | hmoves⟩ := task?_step hbefore a
    · rw [hs', Option.some.injEq] at ht
      subst ht
      exact h id s' hbefore
    · rw [hs', Option.some.injEq] at ht
      subst ht
      exact onlyAsks_of_moves hmoves (h id s hbefore)

theorem Undisturbed.request (hempty : ∀ role, w.cache.entry? role = none) (h : Undisturbed w v)
    (role : Role) (next : Whitelist → Procedure ρ) (stage : RequestStage) :
    Undisturbed w (v.request id role next stage) := by
  cases stage with
  | probing =>
    cases hentry : v.cache.entry? role with
    | some entry =>
      simp only [World.request, hentry]
      exact h.setTask _
    | none =>
      simp only [World.request, hentry]
      exact (h.join role).setTask _
  | waiting => exact h
  | holding entry => exact h.setTask _
  | counted entry counter =>
    simp only [World.request]
    split
    · exact h.resume _
    · exact h.setTask _
  | outdated entry =>
    refine (h.discard fun entry hentry => ?_).setTask _
    rw [hempty role] at hentry
    cases hentry

theorem Undisturbed.advance (hempty : ∀ role, w.cache.entry? role = none) (h : Undisturbed w v)
    (hasks : v.TasksAsk) (id : TaskId) : Undisturbed w (v.advance id) := by
  cases htask : v.task? id with
  | none =>
    rw [World.advance, htask]
    exact h
  | some t =>
    obtain ⟨procedure, stage⟩ := t
    have hprocedure := hasks id _ htask
    rw [World.advance, htask]
    cases procedure with
    | done value => exact h
    | failed e => exact h
    | closure user next =>
      simp only
      cases v.rolesOf user with
      | ok roles => exact h.resume _
      | error e => exact h.resume _
    | residentFirst roles next => exact h.resume _
    | whitelist role next => exact h.request hempty role next stage
    | setup next => exact hprocedure.elim
    | append line next => exact hprocedure.elim
    | bump scope next => exact hprocedure.elim
    | discard scope next => exact hprocedure.elim

theorem Undisturbed.step [KeepsAnswers σ] (hempty : ∀ role, w.cache.entry? role = none)
    (h : Undisturbed w v) (hasks : v.TasksAsk) (ha : a.Calm) : Undisturbed w (v.step a) := by
  cases ha with
  | spawn hp =>
    rw [World.step]
    split
    · exact h
    · exact h.resume _
  | advance id => exact h.advance hempty hasks id
  | proceed role => exact h.proceed role
  | deliver role =>
    rcases answered_or_deliver_eq v role none with ⟨generation, answer, waiters, hf⟩ | heq
    · have hanswer := h.answered role generation answer waiters hf
      subst hanswer
      refine h.deliver none (fun entry hentry => ?_) hf
      rw [hempty role] at hentry
      cases hentry
    · rw [World.step, heq]
      exact h

theorem retains_step (v : World σ ρ) (a : Action σ ρ) :
    (v.step a).cache.retains = v.cache.retains := by
  have htouch := touches_step v a
  generalize (v.step a).cache = c at htouch ⊢
  cases htouch <;> simp

end Step

/-! ## Calm runs -/

theorem retains_after (w : World σ ρ) (actions : List (Action σ ρ)) (n : Nat) :
    (w.after actions n).cache.retains = w.cache.retains := by
  induction n with
  | zero => rfl
  | succ n ih =>
    cases ha : actions[n]? with
    | none =>
      rw [after_succ_of_none ha]
      exact ih
    | some a =>
      rw [after_succ ha, retains_step, ih]

variable [KeepsAnswers σ] {w : World σ ρ} {actions : List (Action σ ρ)} {id : TaskId} {role : Role}
  {m n : Nat} {entry : Cache.Entry}

omit [WhitelistStore σ] [KeepsAnswers σ] in
theorem IsNew.entry? (hw : w.IsNew) (role : Role) : w.cache.entry? role = none := by
  obtain ⟨retains, hcache⟩ := hw.cache
  rw [hcache]
  simp [Cache.entry?, Cache.new]

theorem undisturbed_after (hw : w.IsNew) (hcalm : ∀ a ∈ actions, a.Calm) :
    Undisturbed w (w.after actions n) ∧ (w.after actions n).TasksAsk := by
  refine after_induction_from (P := fun _ v => Undisturbed w v ∧ v.TasksAsk) (m := 0) ?_ ?_ ?_
    (Nat.zero_le n)
  · obtain ⟨retains, hcache⟩ := hw.cache
    refine ⟨⟨rfl, rfl, fun _ => rfl, fun _ => rfl, ?_, ?_, fun _ _ h _ => h⟩, ?_⟩
    · intro role entry hentry
      rw [after_zero, hw.entry? role] at hentry
      cases hentry
    · intro role generation answer waiters hflight
      rw [after_zero, hcache] at hflight
      simp [Cache.flight?, Cache.new] at hflight
    · intro id t ht
      rw [after_zero, task?, hw.tasks] at ht
      simp at ht
  · exact fun _ _ _ ih => ih
  · intro k a _ ha ih
    have hstep := hcalm a (List.mem_of_getElem? ha)
    exact ⟨ih.1.step hw.entry? ih.2 hstep, ih.2.step hstep⟩

/-- Whatever a load has left is up to date and is what the store keeps. -/
theorem Sourced.upToDate (hw : w.IsNew) (hcalm : ∀ a ∈ actions, a.Calm)
    (h : Sourced w actions role n entry) :
    entry.generation = w.cache.generation role ∧ w.stored role = .ok entry.whitelist := by
  obtain ⟨asked, landed, -, hgives, t, -, hread⟩ := h
  obtain ⟨answered, -, -, hanswer⟩ := hgives.answers
  obtain ⟨s, -, hcounter⟩ := hread.counter
  have hsteady (k : Nat) := (undisturbed_after (n := k) hw hcalm).1.generation role
  constructor
  · have hepoch : (w.after actions t).cache.epoch = w.cache.epoch :=
      congrArg Generation.epoch (hsteady t)
    have hcounted : (w.after actions s).cache.counter role = w.cache.counter role :=
      congrArg Generation.counter (hsteady s)
    rw [hread.epoch] at hepoch
    rw [hcounter] at hcounted
    calc entry.generation = ⟨entry.generation.epoch, entry.generation.counter⟩ := rfl
      _ = w.cache.generation role := by rw [hepoch, hcounted, Cache.generation]
  · rw [← (undisturbed_after (n := answered) hw hcalm).1.stored role]
    exact stored_of_answered hanswer

theorem not_outdated (hw : w.IsNew) (hcalm : ∀ a ∈ actions, a.Calm)
    {next : Whitelist → Procedure ρ} :
    (w.after actions n).task? id ≠ some ⟨.whitelist role next, .outdated entry⟩ := by
  intro htask
  have hsourced := sourced_of_held hw id role next _ entry htask rfl
  have hlt := lt_of_outdated hw htask
  rw [(undisturbed_after hw hcalm).1.generation role] at hlt
  exact hlt.2 (hsourced.upToDate hw hcalm).1

/-- What is resident stays so. -/
theorem entry?_succ_of_resident (hw : w.IsNew) (hcalm : ∀ a ∈ actions, a.Calm)
    (h : (w.after actions n).cache.entry? role = some entry) :
    (w.after actions (n + 1)).cache.entry? role = some entry := by
  cases ha : actions[n]? with
  | none =>
    rw [after_succ_of_none ha]
    exact h
  | some a =>
    rw [after_succ ha]
    have htouch := touches_step (w.after actions n) a
    have hasks := (undisturbed_after (n := n) hw hcalm).2
    generalize ((w.after actions n).step a).cache = c at htouch ⊢
    cases htouch with
    | nothing => exact h
    | joins htask habsent =>
      rw [Cache.entry?_join]
      exact h
    | drops htask => exact absurd htask (not_outdated hw hcalm)
    | discards htask => exact (hasks _ _ htask).elim
    | bumps htask => exact (hasks _ _ htask).elim
    | goesOn hf hmoves =>
      rw [Cache.entry?_setStage]
      exact h
    | @keeps r refusal generation answer waiters whitelist hf hok =>
      rw [Cache.entry?_keep, Cache.entry?_land, if_neg]
      · exact h
      · rintro ⟨-, rfl⟩
        rw [loadsMiss_after hw r _ hf] at h
        cases h
    | fails hf herror =>
      rw [Cache.entry?_land]
      exact h

theorem entry?_of_resident (hw : w.IsNew) (hcalm : ∀ a ∈ actions, a.Calm)
    (h : (w.after actions m).cache.entry? role = some entry) (hmn : m ≤ n) :
    (w.after actions n).cache.entry? role = some entry := by
  induction hmn with
  | refl => exact h
  | step _ ih => exact entry?_succ_of_resident hw hcalm ih

theorem isResident_of_le (hw : w.IsNew) (hcalm : ∀ a ∈ actions, a.Calm)
    (h : (w.after actions m).cache.isResident role = true) (hmn : m ≤ n) :
    (w.after actions n).cache.isResident role = true := by
  obtain ⟨entry, hentry⟩ := Option.isSome_iff_exists.1 h
  exact Option.isSome_of_eq_some (entry?_of_resident hw hcalm hentry hmn)

/-- What a task has in hand is resident. -/
theorem isResident_of_held (hw : w.IsNew) (hretains : w.cache.retains = true)
    (hcalm : ∀ a ∈ actions, a.Calm) {next : Whitelist → Procedure ρ} {stage : RequestStage}
    (htask : (w.after actions n).task? id = some ⟨.whitelist role next, stage⟩)
    (hentry : stage.entry? = some entry) : (w.after actions n).cache.isResident role = true := by
  refine Option.isSome_of_eq_some (?_ : _ = some entry)
  refine held_induction (P := fun k role entry => (w.after actions k).cache.entry? role =
    some entry) hw ?_ ?_ ?_ htask hentry
  · exact fun k role entry h => entry?_succ_of_resident hw hcalm h
  · exact fun k role entry h => h
  · intro k role refusal answer waiters entry ha hflight hout
    rw [after_succ ha, step, entry?_deliver_ok hflight hout, if_pos]
    exact ⟨(retains_after w actions k).trans hretains, rfl⟩

/-! ## One load for each role -/

/-- The store has what the loads in flight ask for. -/
def LoadsSucceed (w v : World σ ρ) : Prop :=
  ∀ role flight, v.cache.flight? role = some flight → ∃ whitelist, w.stored role = .ok whitelist

theorem passed_succ (hw : w.IsNew) (hretains : w.cache.retains = true)
    (hcalm : ∀ a ∈ actions, a.Calm) (hloads : LoadsSucceed w (w.after actions n))
    {left : Nat} (h : (w.after actions n).Passed role left) :
    (w.after actions (n + 1)).Passed role left := by
  rcases h with hresident | ⟨flight, hflight, hleft⟩
  · exact Or.inl (isResident_of_le hw hcalm hresident (Nat.le_succ n))
  · cases ha : actions[n]? with
    | none =>
      rw [after_succ_of_none ha]
      exact Or.inr ⟨flight, hflight, hleft⟩
    | some a =>
      rw [after_succ ha]
      rcases flight?_step_of_some hflight a with ⟨flight', hflight', -, hleft'⟩ |
        ⟨outcome, hlanded⟩
      · exact Or.inr ⟨flight', hflight', by omega⟩
      · cases shows_of_mem_events hlanded with
        | @landed _ refusal generation answer waiters hf =>
          have hdeliver := hcalm _ (List.mem_of_getElem? ha)
          cases hdeliver with
          | deliver =>
            obtain ⟨whitelist, hstored⟩ := hloads role _ hf
            have hanswer := (undisturbed_after hw hcalm).1.answered role _ _ _ hf
            have hout : Cache.outcome answer none = .ok whitelist := by
              rw [hanswer, hstored]
              rfl
            have hkeeps : (w.after actions n).cache.retains = true :=
              (retains_after w actions n).trans hretains
            have hentry : ((w.after actions n).deliver role none).cache.entry? role =
                some ⟨generation, whitelist⟩ := by
              rw [entry?_deliver_ok hf hout, if_pos ⟨hkeeps, rfl⟩]
            exact Or.inl (Option.isSome_of_eq_some hentry)

theorem passed_of_le (hw : w.IsNew) (hretains : w.cache.retains = true)
    (hcalm : ∀ a ∈ actions, a.Calm) (hloads : ∀ n, LoadsSucceed w (w.after actions n))
    {left : Nat}
    (h : (w.after actions m).Passed role left) (hmn : m ≤ n) :
    (w.after actions n).Passed role left := by
  induction hmn with
  | refl => exact h
  | step _ ih => exact passed_succ hw hretains hcalm (hloads _) ih

/-- The load of the role takes the step that leaves it so many to go. -/
def Comes (w : World σ ρ) (actions : List (Action σ ρ)) (role : Role) (left n : Nat) : Prop :=
  actions[n]? = some (.proceed role) ∧
    ∃ flight, (w.after actions n).cache.flight? role = some flight ∧
      flight.stage.left = left + 1

omit [KeepsAnswers σ] in
theorem Comes.passed {left : Nat} (h : Comes w actions role left n) :
    (w.after actions (n + 1)).Passed role left := by
  obtain ⟨ha, flight, hflight, hleft⟩ := h
  rw [after_succ ha]
  rcases flight?_step_of_some hflight (.proceed role) with ⟨flight', hflight', -, hleft'⟩ |
    ⟨outcome, hlanded⟩
  · rw [Action.carries, decide_eq_true rfl, if_pos rfl] at hleft'
    exact Or.inr ⟨flight', hflight', by omega⟩
  · cases shows_of_mem_events hlanded

omit [KeepsAnswers σ] in
theorem Comes.not_passed (hw : w.IsNew) {left : Nat} (h : Comes w actions role left n) :
    ¬ (w.after actions n).Passed role left := by
  obtain ⟨-, flight, hflight, hleft⟩ := h
  rintro (hresident | ⟨flight', hflight', hleft'⟩)
  · rw [Cache.isResident, loadsMiss_after hw role flight hflight] at hresident
    cases hresident
  · rw [hflight, Option.some.injEq] at hflight'
    rw [← hflight'] at hleft'
    omega

/-- Once its load has come so far, the role needs no other. -/
theorem Comes.unique (hw : w.IsNew) (hretains : w.cache.retains = true)
    (hcalm : ∀ a ∈ actions, a.Calm) (hloads : ∀ n, LoadsSucceed w (w.after actions n))
    {left : Nat}
    (hm : Comes w actions role left m) (hn : Comes w actions role left n) : m = n := by
  rcases Nat.lt_trichotomy m n with hlt | heq | hlt
  · exact absurd (passed_of_le hw hretains hcalm hloads hm.passed hlt) (hn.not_passed hw)
  · exact heq
  · exact absurd (passed_of_le hw hretains hcalm hloads hn.passed hlt) (hm.not_passed hw)

omit [KeepsAnswers σ] in
theorem comes_of_asked (h : .asked role ∈ w.eventsAt actions n) : Comes w actions role 1 n := by
  obtain ⟨a, ha, hshows⟩ := mem_eventsAt_iff.1 h
  cases hshows with
  | asked hf => exact ⟨ha, _, hf, rfl⟩

omit [KeepsAnswers σ] in
theorem comes_of_answered {answer : Except Error Whitelist}
    (h : .answered role answer ∈ w.eventsAt actions n) : Comes w actions role 0 n := by
  obtain ⟨a, ha, hshows⟩ := mem_eventsAt_iff.1 h
  cases hshows with
  | answered hf => exact ⟨ha, _, hf, rfl⟩

end AuditTrail.World
