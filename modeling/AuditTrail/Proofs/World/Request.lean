import AuditTrail.Proofs.World.Alone

/-!
# A request that runs alone

It ends after at most two rounds.  The first round may come to an entry that is out of date,
resident or from a load that was in flight.  The request takes the entry out, so the second round
begins a load of its own, and that load is stamped with the present generation.
-/

namespace AuditTrail

namespace Cache.LoadStage

/-- The steps that a load has before it until the store has answered. -/
def left : LoadStage → Nat
  | begun => 4
  | counted _ => 3
  | stamped _ => 2
  | asked _ => 1
  | answered _ _ => 0

/-- As far as the stamp has been read, it is this generation. -/
def Agrees (g : Generation) : LoadStage → Prop
  | begun => True
  | counted counter => counter = g.counter
  | stamped generation | asked generation | answered generation _ => generation = g

end Cache.LoadStage

namespace World

variable {σ ρ : Type} [WhitelistStore σ]

/-- The cache holds no entry of the role that is up to date. -/
def Lacks (w : World σ ρ) (role : Role) : Prop :=
  ∀ entry, w.cache.entry? role = some entry → entry.generation ≠ w.cache.generation role

def UpToDate (w : World σ ρ) : Prop :=
  ∀ role entry, w.cache.entry? role = some entry → entry.generation = w.cache.generation role

/-- A load of the role would fail, by the store or because it is refused. -/
def LoadFails (w : World σ ρ) (refusal : Role → Option Error) (role : Role) : Prop :=
  ∃ e, Cache.outcome (w.stored role) (refusal role) = .error e

/-- The run comes to a step in which the task is denied the whitelist of a role.  At that time the
role is not resident. -/
def IsDenied (refusal : Role → Option Error) (id : TaskId) (v : World σ ρ) (role : Role) : Prop :=
  ∃ u e, Leads refusal id v u ∧ nextAlone refusal id u = u.deliver role (refusal role) ∧
    .denied id role e ∈ u.events (.deliver role (refusal role)) ∧
    u.cache.isResident role = false

section Structures

variable (refusal : Role → Option Error) (id : TaskId) (w v : World σ ρ) (role : Role)
  (next : Whitelist → Procedure ρ)

/-- The request waits for a load that has come to this stage. -/
structure Waits (stage : Cache.LoadStage) : Prop where
  undisturbed : Undisturbed w v
  task : v.task? id = some ⟨.whitelist role next, .waiting⟩
  flight : ∃ waiters, v.cache.flight? role = some ⟨stage, waiters⟩ ∧ id ∈ waiters
  absent : v.cache.entry? role = none

/-- The request has an entry in hand.  It is up to date if the cache had one that was. -/
structure Holds (entry : Cache.Entry) : Prop where
  undisturbed : Undisturbed w v
  task : v.task? id = some ⟨.whitelist role next, .holding entry⟩
  right : w.stored role = .ok entry.whitelist
  fresh : entry.generation = w.cache.generation role ∨ w.Lacks role

structure Misses : Prop where
  undisturbed : Undisturbed w v
  task : v.task? id = some ⟨.whitelist role next, .probing⟩
  absent : v.cache.entry? role = none

/-- The run comes to the end of the request: the task goes on with what the store keeps, or it has
failed after a load that failed. -/
def Ends : Prop :=
  ∃ v', Leads refusal id v v' ∧ Undisturbed w v' ∧
    ((∃ whitelist, w.stored role = .ok whitelist ∧
        v'.task? id = some (Task.start (next whitelist))) ∨
      (w.LoadFails refusal role ∧ w.Lacks role ∧ IsDenied refusal id v role ∧
        ∃ e, v'.task? id = some (Task.start (.failed e))))

end Structures

variable {refusal : Role → Option Error} {id : TaskId} {w v : World σ ρ} {role : Role}
  {next : Whitelist → Procedure ρ}

theorem IsDenied.of_leads {v' : World σ ρ} (hleads : Leads refusal id v v')
    (h : IsDenied refusal id v' role) : IsDenied refusal id v role := by
  obtain ⟨u, e, hu, hrest⟩ := h
  exact ⟨u, e, hleads.trans hu, hrest⟩

theorem Ends.of_leads {v' : World σ ρ} (hleads : Leads refusal id v v')
    (h : Ends refusal id w v' role next) : Ends refusal id w v role next := by
  obtain ⟨u, hu, hundisturbed, hgoes | ⟨hfails, hlacks, hdenied, hfailed⟩⟩ := h
  · exact ⟨u, hleads.trans hu, hundisturbed, Or.inl hgoes⟩
  · exact ⟨u, hleads.trans hu, hundisturbed,
      Or.inr ⟨hfails, hlacks, hdenied.of_leads hleads, hfailed⟩⟩

theorem Undisturbed.lacks_of_absent (h : Undisturbed w v) (habsent : v.cache.entry? role = none) :
    w.Lacks role := by
  intro entry hentry hgen
  rw [h.kept role entry hentry hgen] at habsent
  cases habsent

omit [WhitelistStore σ] in
theorem Lacks.not_isResident (h : w.Lacks role) (hdate : w.UpToDate) :
    w.cache.isResident role = false := by
  rw [Cache.isResident, Option.isSome_eq_false_iff, Option.isNone_iff_eq_none]
  cases hentry : w.cache.entry? role with
  | none => rfl
  | some entry => exact absurd (hdate role entry hentry) (h entry hentry)

/-! ## Waiting -/

theorem agrees_of_loadMoves {stage stage' : Cache.LoadStage} (h : v.LoadMoves role stage stage')
    (hstage : stage.Agrees (v.cache.generation role)) :
    stage'.Agrees (v.cache.generation role) := by
  cases h with
  | counted => rfl
  | @stamped counter =>
    have hcounter : counter = v.cache.counter role := hstage
    rw [hcounter]
    rfl
  | asked => exact hstage
  | answered => exact hstage

theorem left_lt_of_loadMoves {stage stage' : Cache.LoadStage} (h : v.LoadMoves role stage stage') :
    stage'.left < stage.left := by
  cases h <;> simp [Cache.LoadStage.left]

theorem nextAlone_of_waiting {stage : Cache.LoadStage} (h : Waits id w v role next stage) :
    nextAlone refusal id v =
      if stage.left = 0 then v.deliver role (refusal role) else v.proceed role := by
  obtain ⟨waiters, hflight, -⟩ := h.flight
  cases stage <;> simp [nextAlone, h.task, hflight, Cache.LoadStage.left]

theorem Undisturbed.proceed [KeepsAnswers σ] (h : Undisturbed w v) (role : Role) :
    Undisturbed w (v.proceed role) := by
  refine ⟨?_, ?_, fun r => ?_, fun r => ?_, fun r entry hentry => ?_, ?_,
    fun r entry hentry hgen => ?_⟩
  · rw [(graph_proceed v role).1, h.graph]
  · rw [(graph_proceed v role).2, h.graphFault]
  · rw [← h.stored r, World.proceed]
    split
    · rfl
    · rfl
    · rfl
    · rfl
    · exact KeepsAnswers.load_load v.store role r
    · rfl
  · rw [← h.generation r, World.proceed]
    split <;> simp [Cache.generation]
  · rw [entry?_proceed] at hentry
    exact h.resident r entry hentry
  · intro r generation answer waiters hflight
    rcases flight?_step (a := .proceed role) hflight with hkept | ⟨i, n, hadvance, -⟩ |
      ⟨f, -, hf, -, hmoves⟩
    · exact h.answered r generation answer waiters hkept
    · cases hadvance
    · obtain ⟨stage, others⟩ := f
      cases hmoves with
      | answered => exact h.stored r
  · rw [entry?_proceed]
    exact h.kept r entry hentry hgen

/-- A load that runs alone comes to the answer of the store.  If its stamp agreed so far with the
present generation, it still does. -/
theorem Waits.answered [KeepsAnswers σ] {stage : Cache.LoadStage} (refusal : Role → Option Error)
    (h : Waits id w v role next stage) :
    ∃ v' generation, Leads refusal id v v' ∧
      Waits id w v' role next (.answered generation (w.stored role)) ∧
      (stage.Agrees (w.cache.generation role) → generation = w.cache.generation role) := by
  generalize hn : stage.left = n
  induction n using Nat.strongRecOn generalizing v stage with
  | ind n ih =>
    obtain ⟨waiters, hflight, hid⟩ := h.flight
    obtain ⟨stage', hflight', hmoves | ⟨-, generation, answer, rfl⟩⟩ := flight?_proceed hflight
    · have hlt := left_lt_of_loadMoves hmoves
      have hnext : nextAlone refusal id v = v.proceed role := by
        rw [nextAlone_of_waiting h, if_neg (by omega)]
      have hwaits : Waits id w (v.proceed role) role next stage' := by
        refine ⟨h.undisturbed.proceed role, ?_, ⟨waiters, hflight', hid⟩, ?_⟩
        · rw [task?_proceed, h.task]
        · rw [entry?_proceed, h.absent]
      obtain ⟨v', generation, hleads, hv', hgen⟩ := ih stage'.left (by omega) hwaits rfl
      refine ⟨v', generation, ?_, hv', fun hstage => hgen ?_⟩
      · exact (Leads.of_next hnext).trans hleads
      · rw [← h.undisturbed.generation role] at hstage ⊢
        exact agrees_of_loadMoves hmoves hstage
    · have hanswer := h.undisturbed.answered role generation answer waiters hflight
      subst hanswer
      exact ⟨v, generation, Leads.refl v, h, fun hgen => hgen⟩

/-! ## The end of a load -/

theorem Undisturbed.deliver {generation : Generation} {waiters : List TaskId}
    (refused : Option Error) (h : Undisturbed w v) (hlacks : w.Lacks role)
    (hflight : v.cache.flight? role = some ⟨.answered generation (w.stored role), waiters⟩) :
    Undisturbed w (v.deliver role refused) := by
  obtain ⟨hgraph, hfault, hstore⟩ := deliver_frame v role refused
  refine ⟨by rw [hgraph, h.graph], by rw [hfault, h.graphFault], fun r => ?_, fun r => ?_,
    ?_, ?_, ?_⟩
  · rw [← h.stored r, World.stored, World.stored, hstore]
  · rw [← h.generation r, Cache.generation, Cache.generation, counter_deliver, epoch_deliver]
  · intro r entry hentry
    rcases entry?_step (a := .deliver role refused) hentry with hkept |
      ⟨_, answer, _, -, hlanded, hout⟩
    · exact h.resident r entry hkept
    · rw [← h.answered r _ answer _ hlanded]
      exact Cache.eq_ok_of_outcome hout
  · intro r generation answer others hr
    rcases flight?_step (a := .deliver role refused) hr with hkept | ⟨i, n, hadvance, -⟩ |
      ⟨f, hproceed, -⟩
    · exact h.answered r generation answer others hkept
    · cases hadvance
    · cases hproceed
  · intro r entry hentry hgen
    cases hout : Cache.outcome (w.stored role) refused with
    | ok whitelist =>
      rw [entry?_deliver_ok hflight hout, if_neg]
      · exact h.kept r entry hentry hgen
      · rintro ⟨-, rfl⟩
        exact hlacks entry hentry hgen
    | error e =>
      rw [entry?_deliver_error hflight hout]
      exact h.kept r entry hentry hgen

theorem Waits.landed {generation : Generation} (refusal : Role → Option Error)
    (h : Waits id w v role next (.answered generation (w.stored role))) :
    (∃ v' whitelist, Leads refusal id v v' ∧ Holds id w v' role next ⟨generation, whitelist⟩ ∧
      v'.cache.flight? role = none) ∨ Ends refusal id w v role next := by
  obtain ⟨waiters, hflight, hid⟩ := h.flight
  have hlacks : w.Lacks role := h.undisturbed.lacks_of_absent h.absent
  have hnext : nextAlone refusal id v = v.deliver role (refusal role) := by
    rw [nextAlone_of_waiting h]
    exact if_pos rfl
  have hleads : Leads refusal id v (v.deliver role (refusal role)) := Leads.of_next hnext
  have hundisturbed := h.undisturbed.deliver (refusal role) hlacks hflight
  have htask : (v.deliver role (refusal role)).task? id = _ := task?_deliver hflight id
  rw [h.task, Option.map_some, if_pos hid] at htask
  cases hout : Cache.outcome (w.stored role) (refusal role) with
  | ok whitelist =>
    rw [hout] at htask
    refine Or.inl ⟨_, whitelist, hleads, ⟨hundisturbed, htask, ?_, Or.inr hlacks⟩, ?_⟩
    · exact Cache.eq_ok_of_outcome hout
    · rw [flight?_deliver hflight, if_pos rfl]
  | error e =>
    rw [hout] at htask
    have hdenied : IsDenied refusal id v role := by
      refine ⟨v, e.relayed, Leads.refl v, hnext, mem_events_iff.2 (.denied hflight hout hid), ?_⟩
      rw [Cache.isResident, h.absent, Option.isSome_none]
    exact Or.inr ⟨_, hleads, hundisturbed, Or.inr ⟨⟨e, hout⟩, hlacks, hdenied, e.relayed, htask⟩⟩

/-! ## An entry in hand -/

theorem nextAlone_of_request {stage : RequestStage} (refusal : Role → Option Error)
    (h : v.task? id = some ⟨.whitelist role next, stage⟩) (hstage : stage ≠ .waiting) :
    nextAlone refusal id v = v.request id role next stage := by
  cases stage with
  | waiting => exact absurd rfl hstage
  | _ => simp [nextAlone, h, advance]

theorem Holds.ends_or_misses {entry : Cache.Entry} (refusal : Role → Option Error)
    (h : Holds id w v role next entry) :
    Ends refusal id w v role next ∨
      (entry.generation ≠ w.cache.generation role ∧ ∃ v', Leads refusal id v v' ∧
        Misses id w v' role next ∧ v'.cache.flight? role = v.cache.flight? role) := by
  have hcount : nextAlone refusal id v =
      v.setTask id ⟨.whitelist role next, .counted entry (v.cache.counter role)⟩ := by
    rw [nextAlone_of_request refusal h.task (by simp), request]
  have hcounted : (nextAlone refusal id v).task? id =
      some ⟨.whitelist role next, .counted entry (v.cache.counter role)⟩ := by
    rw [hcount, task?_setTask, if_pos rfl]
  have hundisturbed : Undisturbed w (nextAlone refusal id v) := by
    rw [hcount]
    exact h.undisturbed.setTask _
  have hcache : (nextAlone refusal id v).cache = v.cache := by rw [hcount, cache_setTask]
  have hfirst : Leads refusal id v (nextAlone refusal id v) := Leads.of_next rfl
  generalize nextAlone refusal id v = u at hcounted hundisturbed hcache hfirst
  have hcompare := nextAlone_of_request refusal hcounted (by simp)
  by_cases hgen : entry.generation = w.cache.generation role
  · -- the stamp is the present generation
    have hgranted : nextAlone refusal id u = u.resume id (next entry.whitelist) := by
      rw [hcompare, request, hcache]
      exact if_pos (hgen.trans (h.undisturbed.generation role).symm)
    refine Or.inl ⟨_, hfirst.trans (Leads.of_next hgranted), hundisturbed.resume _,
      Or.inl ⟨entry.whitelist, h.right, ?_⟩⟩
    rw [task?_resume, if_pos rfl]
  · have hlacks : w.Lacks role := h.fresh.resolve_left hgen
    have hrefuted : nextAlone refusal id u =
        u.setTask id ⟨.whitelist role next, .outdated entry⟩ := by
      rw [hcompare, request, hcache]
      exact if_neg fun h' => hgen (h'.trans (h.undisturbed.generation role))
    have houtdated : (u.setTask id ⟨.whitelist role next, .outdated entry⟩).task? id =
        some ⟨.whitelist role next, .outdated entry⟩ := by
      rw [task?_setTask, if_pos rfl]
    have hdrop := nextAlone_of_request refusal houtdated (by simp)
    rw [request] at hdrop
    refine Or.inr ⟨hgen, _, (hfirst.trans (Leads.of_next hrefuted)).trans (Leads.of_next hdrop),
      ⟨((hundisturbed.setTask _).discard hlacks).setTask _, ?_, ?_⟩, ?_⟩
    · rw [task?_setTask, if_pos rfl]
    · rw [cache_setTask, Cache.entry?_discard]
      exact if_pos rfl
    · rw [cache_setTask, Cache.flight?_discard, cache_setTask, hcache]

/-! ## The whole request -/

theorem Misses.waits (refusal : Role → Option Error) (h : Misses id w v role next) :
    Waits id w (nextAlone refusal id v) role next
      ((v.cache.flight? role).getD ⟨.begun, []⟩).stage := by
  have hjoin : nextAlone refusal id v =
      ({ v with cache := v.cache.join role id } : World σ ρ).setTask id
        ⟨.whitelist role next, .waiting⟩ := by
    rw [nextAlone_of_request refusal h.task (by simp), request, h.absent]
  rw [hjoin]
  refine ⟨(h.undisturbed.join role).setTask _, ?_, ?_, h.absent⟩
  · rw [task?_setTask, if_pos rfl]
  · refine ⟨((v.cache.flight? role).getD ⟨.begun, []⟩).waiters ++ [id], ?_,
      List.mem_append_right _ (List.mem_singleton_self id)⟩
    rw [cache_setTask, Cache.flight?_join, if_pos rfl]

variable [KeepsAnswers σ]

theorem Waits.ends_of_agrees {stage : Cache.LoadStage} (h : Waits id w v role next stage)
    (hagrees : stage.Agrees (w.cache.generation role)) : Ends refusal id w v role next := by
  obtain ⟨u, generation, hu, hwaits, hgen⟩ := h.answered refusal
  refine Ends.of_leads hu ?_
  rcases hwaits.landed refusal with ⟨u', whitelist, hu', hholds, -⟩ | hends
  · refine Ends.of_leads hu' ?_
    rcases hholds.ends_or_misses refusal with hends | ⟨hstale, -⟩
    · exact hends
    · exact absurd (hgen hagrees) hstale
  · exact hends

theorem Misses.ends_of_none (h : Misses id w v role next) (hnone : v.cache.flight? role = none) :
    Ends refusal id w v role next := by
  have hwaits := h.waits refusal
  rw [hnone, Option.getD_none] at hwaits
  exact Ends.of_leads (Leads.of_next rfl) (hwaits.ends_of_agrees trivial)

/-- A load from before may leave an entry that is out of date, and then the request begins a load
of its own. -/
theorem Waits.ends {stage : Cache.LoadStage} (h : Waits id w v role next stage) :
    Ends refusal id w v role next := by
  obtain ⟨u, generation, hu, hwaits, -⟩ := h.answered refusal
  refine Ends.of_leads hu ?_
  rcases hwaits.landed refusal with ⟨u', whitelist, hu', hholds, hnone⟩ | hends
  · refine Ends.of_leads hu' ?_
    rcases hholds.ends_or_misses refusal with hends | ⟨-, v', hv', hmisses, hflight⟩
    · exact hends
    · exact Ends.of_leads hv' (hmisses.ends_of_none (hflight.trans hnone))
  · exact hends

theorem Misses.ends (h : Misses id w v role next) : Ends refusal id w v role next :=
  Ends.of_leads (Leads.of_next rfl) (h.waits refusal).ends

/-- A request that runs alone ends. -/
theorem Undisturbed.ends (refusal : Role → Option Error) (h : Undisturbed w v)
    (htask : v.task? id = some ⟨.whitelist role next, .probing⟩) :
    Ends refusal id w v role next := by
  cases hentry : v.cache.entry? role with
  | none => exact Misses.ends ⟨h, htask, hentry⟩
  | some entry =>
    have hfound : nextAlone refusal id v =
        v.setTask id ⟨.whitelist role next, .holding entry⟩ := by
      rw [nextAlone_of_request refusal htask (by simp), request, hentry]
    have hfresh : entry.generation = w.cache.generation role ∨ w.Lacks role := by
      by_cases hgen : entry.generation = w.cache.generation role
      · exact Or.inl hgen
      · refine Or.inr fun entry' hentry' hgen' => hgen ?_
        have hkept := h.kept role entry' hentry' hgen'
        rw [hentry, Option.some.injEq] at hkept
        rw [hkept, hgen']
    have hholds : Holds id w (v.setTask id ⟨.whitelist role next, .holding entry⟩) role next
        entry := by
      refine ⟨h.setTask _, ?_, h.resident role entry hentry, hfresh⟩
      rw [task?_setTask, if_pos rfl]
    refine Ends.of_leads (Leads.of_next hfound) ?_
    rcases hholds.ends_or_misses refusal with hends | ⟨-, v', hv', hmisses, -⟩
    · exact hends
    · exact Ends.of_leads hv' hmisses.ends

end World
end AuditTrail
