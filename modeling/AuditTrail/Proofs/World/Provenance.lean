import AuditTrail.Proofs.World.History

/-!
# Where whitelists come from

Every entry that the cache or a task holds goes back to one load of the store: a generation was
read, after that the store was asked, it answered with the whitelist, and the load landed
(`Sourced`).  The invariant behind it says of each load in flight how far it has come and at which
times (`Reached`).
-/

namespace AuditTrail

def RequestStage.entry? : RequestStage → Option Cache.Entry
  | .holding entry | .counted entry _ | .outdated entry => some entry
  | .probing | .waiting => none

namespace World

variable {σ ρ : Type} [WhitelistStore σ]

/-! ## Loads -/

section Loads

variable (w : World σ ρ) (actions : List (Action σ ρ)) (role : Role)

/-- The generation of a role as it is read in two steps, the counter first and then the epoch. -/
structure ReadAt (g : Generation) (time : Nat) : Prop where
  counter : ∃ t, t < time ∧ (w.after actions t).cache.counter role = g.counter
  epoch : (w.after actions time).cache.epoch = g.epoch

/-- The store was asked at a time before `now`, for a load that had read its generation before, and
it has not been asked again for the role. -/
structure AskedAt (g : Generation) (asked now : Nat) : Prop where
  stamped : ∃ t, t < asked ∧ ReadAt w actions role g t
  asks : .asked role ∈ w.eventsAt actions asked
  past : asked < now
  only : ∀ n, asked < n → n < now → .asked role ∉ w.eventsAt actions n

def Reached (now : Nat) : Cache.LoadStage → Prop
  | .begun => True
  | .counted counter => ∃ t, t < now ∧ (w.after actions t).cache.counter role = counter
  | .stamped g => ∃ t, t < now ∧ ReadAt w actions role g t
  | .asked g => ∃ asked, AskedAt w actions role g asked now
  | .answered g answer => ∃ asked n, AskedAt w actions role g asked now ∧ asked < n ∧ n < now ∧
      .answered role answer ∈ w.eventsAt actions n

/-- A load of the store that began at one time and gave the whitelist at another.  Between the two
the store was not asked for the role again, so the answer is the answer to this load. -/
structure LoadGives (whitelist : Whitelist) (asked landed : Nat) : Prop where
  asks : .asked role ∈ w.eventsAt actions asked
  answers : ∃ n, asked < n ∧ n < landed ∧ .answered role (.ok whitelist) ∈ w.eventsAt actions n
  lands : .landed role (.ok whitelist) ∈ w.eventsAt actions landed
  only : ∀ n, asked < n → n ≤ landed → .asked role ∉ w.eventsAt actions n

/-- The entry is what a load before `now` gave, stamped with the generation that it had read. -/
def Sourced (now : Nat) (entry : Cache.Entry) : Prop :=
  ∃ asked landed, landed < now ∧ LoadGives w actions role entry.whitelist asked landed ∧
    ∃ t, t < asked ∧ ReadAt w actions role entry.generation t

end Loads

variable {w : World σ ρ} {actions : List (Action σ ρ)} {role : Role} {n : Nat}

theorem Sourced.mono {m : Nat} {entry : Cache.Entry} (h : Sourced w actions role m entry)
    (hmn : m ≤ n) : Sourced w actions role n entry := by
  obtain ⟨asked, landed, hlanded, hrest⟩ := h
  exact ⟨asked, landed, Nat.lt_of_lt_of_le hlanded hmn, hrest⟩

/-- The store is asked only for a load that has its stamp and has not asked. -/
theorem not_asked_of_flight? {stage : Cache.LoadStage} {waiters : List TaskId}
    (h : (w.after actions n).cache.flight? role = some ⟨stage, waiters⟩)
    (hstage : ∀ g, stage ≠ .stamped g) : .asked role ∉ w.eventsAt actions n := by
  intro hasked
  obtain ⟨a, -, hshows⟩ := mem_eventsAt_iff.1 hasked
  cases hshows with
  | asked hflight =>
    rw [h] at hflight
    cases hflight
    exact hstage _ rfl

theorem AskedAt.succ {g : Generation} {asked : Nat} (h : AskedAt w actions role g asked n)
    (hnot : .asked role ∉ w.eventsAt actions n) : AskedAt w actions role g asked (n + 1) := by
  refine ⟨h.stamped, h.asks, Nat.lt_succ_of_lt h.past, fun m hm hmn => ?_⟩
  rcases Nat.lt_succ_iff_lt_or_eq.1 hmn with hlt | rfl
  · exact h.only m hm hlt
  · exact hnot

theorem Reached.succ {stage : Cache.LoadStage} {waiters : List TaskId}
    (h : Reached w actions role n stage)
    (hflight : (w.after actions n).cache.flight? role = some ⟨stage, waiters⟩) :
    Reached w actions role (n + 1) stage := by
  have hnot := not_asked_of_flight? hflight
  cases stage with
  | begun => exact trivial
  | counted counter =>
    obtain ⟨t, ht, hread⟩ := h
    exact ⟨t, Nat.lt_succ_of_lt ht, hread⟩
  | stamped g =>
    obtain ⟨t, ht, hread⟩ := h
    exact ⟨t, Nat.lt_succ_of_lt ht, hread⟩
  | asked g =>
    obtain ⟨asked, hasked⟩ := h
    exact ⟨asked, hasked.succ (hnot fun g => by simp)⟩
  | answered g answer =>
    obtain ⟨asked, m, hasked, hm, hmn, hanswer⟩ := h
    exact ⟨asked, m, hasked.succ (hnot fun g => by simp), hm, Nat.lt_succ_of_lt hmn, hanswer⟩

theorem Reached.of_loadMoves {stage stage' : Cache.LoadStage} {waiters : List TaskId}
    (h : Reached w actions role n stage) (ha : actions[n]? = some (.proceed role))
    (hflight : (w.after actions n).cache.flight? role = some ⟨stage, waiters⟩)
    (hmoves : (w.after actions n).LoadMoves role stage stage') :
    Reached w actions role (n + 1) stage' := by
  cases hmoves with
  | counted => exact ⟨n, Nat.lt_succ_self n, rfl⟩
  | stamped =>
    obtain ⟨t, ht, hread⟩ := h
    exact ⟨n, Nat.lt_succ_self n, ⟨t, ht, hread⟩, rfl⟩
  | asked =>
    obtain ⟨t, ht, hread⟩ := h
    refine ⟨n, ⟨t, ht, hread⟩, mem_eventsAt_iff.2 ⟨_, ha, .asked hflight⟩, Nat.lt_succ_self n, ?_⟩
    intro m hm hmn
    omega
  | answered =>
    obtain ⟨asked, hasked⟩ := h
    have hanswer := mem_eventsAt_iff.2 ⟨_, ha, .answered hflight⟩
    have hnot := not_asked_of_flight? hflight fun g => by simp
    exact ⟨asked, n, hasked.succ hnot, hasked.past, Nat.lt_succ_self n, hanswer⟩

theorem reached_of_flight? (hw : w.IsNew) :
    ∀ role flight, (w.after actions n).cache.flight? role = some flight →
      Reached w actions role n flight.stage := by
  refine after_induction_from (P := fun n w' => ∀ role flight,
    w'.cache.flight? role = some flight → Reached w actions role n flight.stage)
    (m := 0) ?_ ?_ ?_ (Nat.zero_le n)
  · intro role flight hflight
    obtain ⟨retains, hcache⟩ := hw.cache
    rw [after_zero, hcache] at hflight
    simp [Cache.flight?, Cache.new] at hflight
  · intro n _ _ ih role flight hflight
    exact (ih role flight hflight).succ hflight
  · intro n a _ ha ih role flight hflight
    rcases flight?_step hflight with hkept | ⟨id, next, -, -, -, hjoined⟩ |
      ⟨f, rfl, hf, -, hmoves⟩
    · exact (ih role flight hkept).succ hkept
    · subst hjoined
      cases hf : (w.after actions n).cache.flight? role with
      | none => exact trivial
      | some f => exact (ih role f hf).succ hf
    · exact (ih role f hf).of_loadMoves ha hf hmoves

/-- What a load leaves when it lands well has its source in that load. -/
theorem sourced_of_landing (hw : w.IsNew) {g : Generation} {answer : Except Error Whitelist}
    {waiters : List TaskId} {refusal : Option Error} {whitelist : Whitelist}
    (ha : actions[n]? = some (.deliver role refusal))
    (hflight : (w.after actions n).cache.flight? role = some ⟨.answered g answer, waiters⟩)
    (hout : Cache.outcome answer refusal = .ok whitelist) :
    Sourced w actions role (n + 1) ⟨g, whitelist⟩ := by
  obtain ⟨asked, m, hasked, hm, hmn, hanswer⟩ := reached_of_flight? hw role _ hflight
  have hok := Cache.eq_ok_of_outcome hout
  subst hok
  have hlands : .landed role (.ok whitelist) ∈ w.eventsAt actions n := by
    rw [← hout]
    exact mem_eventsAt_iff.2 ⟨_, ha, .landed hflight⟩
  refine ⟨asked, n, Nat.lt_succ_self n, ⟨hasked.asks, ⟨m, hm, hmn, hanswer⟩, hlands, ?_⟩,
    hasked.stamped⟩
  intro k hk hkn
  rcases Nat.lt_or_eq_of_le hkn with hlt | rfl
  · exact hasked.only k hk hlt
  · exact not_asked_of_flight? hflight fun g => by simp

/-! ## Those who wait -/

/-- The tasks on the list of a load wait for that load. -/
def WaitersWait (w : World σ ρ) : Prop :=
  ∀ role flight id, w.cache.flight? role = some flight → id ∈ flight.waiters →
    ∃ next, w.task? id = some ⟨.whitelist role next, .waiting⟩

omit [WhitelistStore σ] in
theorem WaitersWait.eq_waiting {w : World σ ρ} (hwait : WaitersWait w) {id : TaskId} {t : Task ρ}
    {flight : Cache.Flight} {role : Role} (ht : w.task? id = some t)
    (hflight : w.cache.flight? role = some flight) (hid : id ∈ flight.waiters) :
    ∃ next, t = ⟨.whitelist role next, .waiting⟩ := by
  obtain ⟨next, hnext⟩ := hwait role flight id hflight hid
  rw [ht, Option.some.injEq] at hnext
  exact ⟨next, hnext⟩

theorem task?_advance_of_absent {w : World σ ρ} {id : TaskId} {role : Role}
    {next : Whitelist → Procedure ρ} (h : w.task? id = some ⟨.whitelist role next, .probing⟩)
    (habsent : w.cache.entry? role = none) :
    (w.advance id).task? id = some ⟨.whitelist role next, .waiting⟩ := by
  simp [advance, h, request, habsent, task?_setTask]

theorem task?_advance_of_found {w : World σ ρ} {id : TaskId} {role : Role}
    {next : Whitelist → Procedure ρ} {entry : Cache.Entry}
    (h : w.task? id = some ⟨.whitelist role next, .probing⟩)
    (hentry : w.cache.entry? role = some entry) :
    (w.advance id).task? id = some ⟨.whitelist role next, .holding entry⟩ := by
  simp [advance, h, request, hentry, task?_setTask]

/-- A task that waits is moved by the end of its load alone. -/
theorem task?_step_of_waiting {w : World σ ρ} {a : Action σ ρ} {id : TaskId} {role : Role}
    {next : Whitelist → Procedure ρ} (hwait : WaitersWait w)
    (h : w.task? id = some ⟨.whitelist role next, .waiting⟩)
    (hstill : (w.step a).cache.flight? role ≠ none) :
    (w.step a).task? id = some ⟨.whitelist role next, .waiting⟩ := by
  obtain ⟨t', ht', rfl | hmoves⟩ := task?_step h a
  · exact ht'
  · cases hmoves with
    | @received r refusal g answer waiters _ hflight hid =>
      obtain ⟨next', hnext'⟩ := hwait r _ id hflight hid
      rw [h] at hnext'
      cases hnext'
      refine absurd ?_ hstill
      rw [step, flight?_deliver hflight, if_pos rfl]

theorem waitersWait_step {w : World σ ρ} (hwait : WaitersWait w) (a : Action σ ρ) :
    WaitersWait (w.step a) := by
  intro role flight id hflight hid
  have hstill : (w.step a).cache.flight? role ≠ none := by
    rw [hflight]
    simp
  rcases flight?_step hflight with hkept | ⟨i, next, rfl, htask, habsent, rfl⟩ |
    ⟨f, rfl, hf, hwaiters, -⟩
  · obtain ⟨next, hnext⟩ := hwait role flight id hkept hid
    exact ⟨next, task?_step_of_waiting hwait hnext hstill⟩
  · rcases List.mem_append.1 hid with hid | hid
    · cases hf : w.cache.flight? role with
      | none =>
        rw [hf] at hid
        cases hid
      | some f =>
        rw [hf] at hid
        obtain ⟨next', hnext'⟩ := hwait role f id hf hid
        exact ⟨next', task?_step_of_waiting hwait hnext' hstill⟩
    · rw [List.mem_singleton] at hid
      subst hid
      exact ⟨next, task?_advance_of_absent htask habsent⟩
  · rw [hwaiters] at hid
    obtain ⟨next, hnext⟩ := hwait role f id hf hid
    exact ⟨next, task?_step_of_waiting hwait hnext hstill⟩

theorem waitersWait_after (hw : w.IsNew) : WaitersWait (w.after actions n) := by
  refine after_induction_from (P := fun _ w' => WaitersWait w') (m := 0) ?_ ?_ ?_ (Nat.zero_le n)
  · intro role flight id hflight
    obtain ⟨retains, hcache⟩ := hw.cache
    rw [after_zero, hcache] at hflight
    simp [Cache.flight?, Cache.new] at hflight
  · exact fun _ _ _ ih => ih
  · exact fun _ a _ _ ih => waitersWait_step ih a

/-- Every load in flight is waited for. -/
theorem waiters_ne_nil_after (hw : w.IsNew) :
    ∀ role flight, (w.after actions n).cache.flight? role = some flight → flight.waiters ≠ [] := by
  refine after_induction_from (P := fun _ w' => ∀ role flight,
    w'.cache.flight? role = some flight → flight.waiters ≠ []) (m := 0) ?_ ?_ ?_ (Nat.zero_le n)
  · intro role flight hflight
    obtain ⟨retains, hcache⟩ := hw.cache
    rw [after_zero, hcache] at hflight
    simp [Cache.flight?, Cache.new] at hflight
  · exact fun _ _ _ ih => ih
  · intro k a _ _ ih role flight hflight
    rcases flight?_step hflight with hkept | ⟨id, next, -, -, -, rfl⟩ | ⟨f, -, hf, hwaiters, -⟩
    · exact ih role flight hkept
    · simp
    · rw [hwaiters]
      exact ih role f hf

theorem waiting_of_flight? (hw : w.IsNew) {flight : Cache.Flight}
    (h : (w.after actions n).cache.flight? role = some flight) :
    ∃ id next, (w.after actions n).task? id = some ⟨.whitelist role next, .waiting⟩ := by
  obtain ⟨id, hid⟩ := List.exists_mem_of_ne_nil _ (waiters_ne_nil_after hw role flight h)
  exact ⟨id, waitersWait_after hw role flight id h hid⟩

/-- The store is asked for a role that some task waits for. -/
theorem waiting_of_asked (hw : w.IsNew) (h : .asked role ∈ w.eventsAt actions n) :
    ∃ id next, (w.after actions n).task? id = some ⟨.whitelist role next, .waiting⟩ := by
  obtain ⟨a, -, hshows⟩ := mem_eventsAt_iff.1 h
  cases hshows with
  | asked hflight => exact waiting_of_flight? hw hflight

/-! ## Entries -/

theorem sourced_of_resident (hw : w.IsNew) :
    ∀ role entry, (w.after actions n).cache.entry? role = some entry →
      Sourced w actions role n entry := by
  refine after_induction_from (P := fun n w' => ∀ role entry,
    w'.cache.entry? role = some entry → Sourced w actions role n entry)
    (m := 0) ?_ ?_ ?_ (Nat.zero_le n)
  · intro role entry hentry
    obtain ⟨retains, hcache⟩ := hw.cache
    rw [after_zero, hcache] at hentry
    simp [Cache.entry?, Cache.new] at hentry
  · intro n _ _ ih role entry hentry
    exact (ih role entry hentry).mono (Nat.le_succ n)
  · intro n a _ ha ih role entry hentry
    rcases entry?_step hentry with hkept | ⟨refusal, answer, waiters, rfl, hflight, hout⟩
    · exact (ih role entry hkept).mono (Nat.le_succ n)
    · exact sourced_of_landing hw ha hflight hout

/-! ## Entries in hand -/

/-- A request comes to hold an entry by holding it already, by finding it, or by receiving it. -/
theorem takes_of_moves {w : World σ ρ} {id : TaskId} {a : Action σ ρ} {t : Task ρ}
    {stage : RequestStage} {next : Whitelist → Procedure ρ} {held : Cache.Entry}
    (hwait : WaitersWait w) (htask : w.task? id = some t)
    (h : w.Moves id a t ⟨.whitelist role next, stage⟩) (hstage : stage.entry? = some held) :
    (∃ stage', t = ⟨.whitelist role next, stage'⟩ ∧ stage'.entry? = some held) ∨
      t.stage.entry? = none ∧ (w.cache.entry? role = some held ∨
        ∃ refusal answer waiters, a = .deliver role refusal ∧
          w.cache.flight? role = some ⟨.answered held.generation answer, waiters⟩ ∧
          Cache.outcome answer refusal = .ok held.whitelist) := by
  generalize ht' : (⟨.whitelist role next, stage⟩ : Task ρ) = t' at h
  have hreached : t'.stage.entry? = some held := by
    rw [← ht']
    exact hstage
  cases h with
  | found hfound =>
    cases ht'
    cases hstage
    exact Or.inr ⟨rfl, Or.inl hfound⟩
  | counted =>
    cases ht'
    exact Or.inl ⟨_, rfl, hstage⟩
  | refuted hgen =>
    cases ht'
    exact Or.inl ⟨_, rfl, hstage⟩
  | @received r refusal generation answer waiters _ hflight hid =>
    obtain ⟨next', rfl⟩ := hwait.eq_waiting htask hflight hid
    cases hout : Cache.outcome answer refusal with
    | ok whitelist =>
      rw [hout] at ht'
      cases ht'
      cases hstage
      exact Or.inr ⟨rfl, Or.inr ⟨refusal, answer, waiters, rfl, hflight, hout⟩⟩
    | error e =>
      rw [hout] at hreached
      cases hreached
  | _ => cases hreached

/-- What holds of an entry when a request finds it or receives it, and is kept over time, holds of
whatever a request has in hand. -/
theorem held_induction {P : Nat → Role → Cache.Entry → Prop} (hw : w.IsNew)
    (hkeep : ∀ k role entry, P k role entry → P (k + 1) role entry)
    (hfound : ∀ k role entry, (w.after actions k).cache.entry? role = some entry → P k role entry)
    (hreceived : ∀ k role refusal answer waiters (entry : Cache.Entry),
      actions[k]? = some (.deliver role refusal) →
      (w.after actions k).cache.flight? role =
        some ⟨.answered entry.generation answer, waiters⟩ →
      Cache.outcome answer refusal = .ok entry.whitelist → P (k + 1) role entry)
    {id : TaskId} {next : Whitelist → Procedure ρ} {stage : RequestStage} {entry : Cache.Entry}
    (htask : (w.after actions n).task? id = some ⟨.whitelist role next, stage⟩)
    (hentry : stage.entry? = some entry) : P n role entry := by
  refine task_induction_from (P := fun k t => ∀ role next stage entry,
    t = ⟨.whitelist role next, stage⟩ → stage.entry? = some entry → P k role entry) ?_ ?_ ?_ ?_
    (Nat.zero_le n) _ htask role next stage entry rfl hentry
  · intro t ht
    rw [after_zero, task?, hw.tasks] at ht
    simp at ht
  · intro k p role next stage entry ht hentry
    cases ht
    cases hentry
  · exact fun k t ih role next stage entry ht hentry =>
      hkeep k role entry (ih role next stage entry ht hentry)
  · intro k a t t' _ ha hbefore hmoves ih role next stage entry ht' hentry
    subst ht'
    rcases takes_of_moves (waitersWait_after hw) hbefore hmoves hentry with
      ⟨stage', rfl, hheld⟩ | ⟨-, hentry' | ⟨refusal, answer, waiters, rfl, hflight, hout⟩⟩
    · exact hkeep k role entry (ih role next stage' entry rfl hheld)
    · exact hkeep k role entry (hfound k role entry hentry')
    · exact hreceived k role refusal answer waiters entry ha hflight hout

theorem sourced_of_held (hw : w.IsNew) :
    ∀ id role next stage entry, (w.after actions n).task? id = some ⟨.whitelist role next, stage⟩ →
      stage.entry? = some entry → Sourced w actions role n entry := by
  intro id role next stage entry htask hentry
  refine held_induction (P := fun k role entry => Sourced w actions role k entry) hw ?_ ?_ ?_ htask
    hentry
  · exact fun k role entry h => h.mono (Nat.le_succ k)
  · exact fun k role entry h => sourced_of_resident hw role entry h
  · exact fun k role refusal answer waiters entry ha hflight hout =>
      sourced_of_landing hw ha hflight hout

end World
end AuditTrail
