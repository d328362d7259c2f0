import AuditTrail.Proofs.World.Retrying

/-!
# Tasks that only ask for whitelists

A procedure may ask for the whitelists of some roles in turn (`AsksInTurn`).  However a run
interleaves, some of the roles have then answered and the others are still to be asked
(`asked_after`), so none of them is asked again (`not_asks_again`).

A procedure that has all its answers in the cache (`Hits`) runs by its own steps alone, as long as
no other task moves and the cache is up to date (`RunsUnaided.of_hits`).
-/

namespace AuditTrail

namespace Procedure

variable {α : Type}

/-- The procedure asks for the whitelists of these roles, in this order though perhaps not of all of
them, and for nothing else. -/
def AsksInTurn : Procedure α → List Role → Prop
  | done _, _ | failed _, _ => True
  | whitelist role next, first :: rest => role = first ∧ ∀ w, (next w).AsksInTurn rest
  | _, _ => False

/-- The cache has every whitelist that the procedure asks for, and with them the procedure comes to
this value. -/
def Hits (c : Cache) (value : α) : Procedure α → Prop
  | done v => v = value
  | whitelist role next => ∃ entry, c.entry? role = some entry ∧ (next entry.whitelist).Hits c value
  | _ => False

theorem asksInTurn_whitelist_iff {role : Role} {next : Whitelist → Procedure α}
    {roles : List Role} :
    (whitelist role next).AsksInTurn roles ↔
      ∃ rest, roles = role :: rest ∧ ∀ w, (next w).AsksInTurn rest := by
  cases roles with
  | nil => simp [AsksInTurn]
  | cons first rest =>
    constructor
    · rintro ⟨rfl, hnext⟩
      exact ⟨rest, rfl, hnext⟩
    · rintro ⟨rest', heq, hnext⟩
      cases heq
      exact ⟨rfl, hnext⟩

end Procedure

namespace World

variable {σ ρ : Type} [WhitelistStore σ]

/-! ## Asking in turn -/

/-- The task has been handed the whitelist of the role in this stretch of the run. -/
def GrantedBetween (w : World σ ρ) (actions : List (Action σ ρ)) (id : TaskId) (role : Role)
    (first last : Nat) : Prop :=
  ∃ n whitelist, first ≤ n ∧ n < last ∧ .granted id role whitelist ∈ w.eventsAt actions n

section Turn

variable {w : World σ ρ} {actions : List (Action σ ρ)} {id : TaskId} {role : Role} {t t' : Task ρ}
  {a : Action σ ρ} {roles : List Role} {m n : Nat}

theorem GrantedBetween.succ (h : GrantedBetween w actions id role m n) :
    GrantedBetween w actions id role m (n + 1) := by
  obtain ⟨k, whitelist, hk, hkn, hgrant⟩ := h
  exact ⟨k, whitelist, hk, Nat.lt_succ_of_lt hkn, hgrant⟩

/-- A task that moves is still at its question, or the first role has answered, or it is over. -/
theorem asksInTurn_of_moves (hwait : WaitersWait w) (htask : w.task? id = some t)
    (hmoves : w.Moves id a t t') (h : t.procedure.AsksInTurn roles) :
    t'.procedure.AsksInTurn roles ∨ ∃ role rest whitelist, roles = role :: rest ∧
      t'.procedure.AsksInTurn rest ∧ .granted id role whitelist ∈ w.events a := by
  cases hmoves with
  | found hentry => exact Or.inl h
  | joined habsent => exact Or.inl h
  | counted => exact Or.inl h
  | granted hgen =>
    obtain ⟨rest, rfl, hnext⟩ := Procedure.asksInTurn_whitelist_iff.1 h
    exact Or.inr ⟨_, rest, _, rfl, hnext _, mem_events_of_shows (.granted htask hgen)⟩
  | refuted hgen => exact Or.inl h
  | retried => exact Or.inl h
  | @received role refusal generation answer waiters _ hflight hid =>
    obtain ⟨next, rfl⟩ := hwait.eq_waiting htask hflight hid
    cases Cache.outcome answer refusal with
    | ok whitelist => exact Or.inl h
    | error e => exact Or.inl trivial
  | _ => exact h.elim

/-- At any later time some of the roles have answered, and the task asks the others in turn. -/
theorem asked_after (hw : w.IsNew) (ht : (w.after actions m).task? id = some t)
    (h : t.procedure.AsksInTurn roles) (hmn : m ≤ n) :
    ∃ t' told rest, (w.after actions n).task? id = some t' ∧ roles = told ++ rest ∧
      t'.procedure.AsksInTurn rest ∧ ∀ x ∈ told, GrantedBetween w actions id x m n := by
  refine after_induction_from (P := fun k (v : World σ ρ) => ∃ t' told rest,
    v.task? id = some t' ∧ roles = told ++ rest ∧ t'.procedure.AsksInTurn rest ∧
      ∀ x ∈ told, GrantedBetween w actions id x m k) ?_ ?_ ?_ hmn
  · exact ⟨t, [], roles, ht, rfl, h, fun x hx => by cases hx⟩
  · rintro k - - ⟨t', told, rest, ht', hroles, hasks, htold⟩
    exact ⟨t', told, rest, ht', hroles, hasks, fun x hx => (htold x hx).succ⟩
  · rintro k a hk ha ⟨s, told, rest, hs, hroles, hasks, htold⟩
    obtain ⟨s', hs', rfl | hmoves⟩ := task?_step hs a
    · exact ⟨s', told, rest, hs', hroles, hasks, fun x hx => (htold x hx).succ⟩
    · rcases asksInTurn_of_moves (waitersWait_after hw) hs hmoves hasks with hasks' |
        ⟨role, rest', whitelist, rfl, hasks', hgrant⟩
      · exact ⟨s', told, rest, hs', hroles, hasks', fun x hx => (htold x hx).succ⟩
      · refine ⟨s', told ++ [role], rest', hs', by simp [hroles], hasks', fun x hx => ?_⟩
        rcases List.mem_append.1 hx with hx | hx
        · exact (htold x hx).succ
        · rw [List.mem_singleton] at hx
          subst hx
          rw [← eventsAt_of_some ha] at hgrant
          exact ⟨k, whitelist, hk, Nat.lt_succ_self k, hgrant⟩

/-- A task that is handed a whitelist goes on with it. -/
theorem task?_of_granted {whitelist : Whitelist}
    (h : .granted id role whitelist ∈ w.eventsAt actions n) :
    ∃ next stage, (w.after actions n).task? id = some ⟨.whitelist role next, stage⟩ ∧
      (w.after actions (n + 1)).task? id = some (Task.start (next whitelist)) := by
  obtain ⟨a, ha, hshows⟩ := mem_eventsAt_iff.1 h
  cases hshows with
  | @granted _ _ next entry counter htask hgen =>
    refine ⟨next, _, htask, ?_⟩
    rw [after_succ ha, step]
    simp [advance, htask, request, hgen, task?_resume]

/-- A task that is denied a whitelist has failed. -/
theorem task?_of_denied (hw : w.IsNew) {e : Error} (h : .denied id role e ∈ w.eventsAt actions n) :
    ∃ next stage, (w.after actions n).task? id = some ⟨.whitelist role next, stage⟩ ∧
      (w.after actions (n + 1)).task? id = some (Task.start (.failed e)) := by
  obtain ⟨a, ha, hshows⟩ := mem_eventsAt_iff.1 h
  cases hshows with
  | @denied _ refusal generation answer waiters _ error hflight hout hid =>
    obtain ⟨next, htask⟩ := waitersWait_after hw role _ id hflight hid
    refine ⟨next, _, htask, ?_⟩
    rw [after_succ ha, step, task?_deliver hflight, htask, Option.map_some, if_pos hid, hout]
    rfl

theorem task?_of_answered (hw : w.IsNew) (h : AnsweredAt w actions id role n) :
    ∃ next stage, (w.after actions n).task? id = some ⟨.whitelist role next, stage⟩ := by
  rcases h with ⟨whitelist, hgrant⟩ | ⟨e, hdenied⟩
  · obtain ⟨next, stage, htask, -⟩ := task?_of_granted hgrant
    exact ⟨next, stage, htask⟩
  · obtain ⟨next, stage, htask, -⟩ := task?_of_denied hw hdenied
    exact ⟨next, stage, htask⟩

/-- A task that asks each of its roles once does not come back to one that has answered. -/
theorem not_asks_again (hw : w.IsNew) (ht : (w.after actions m).task? id = some t)
    (hasks : t.procedure.AsksInTurn roles) (hnodup : roles.Nodup)
    (hanswered : AnsweredAt w actions id role m) (hmn : m < n)
    {next : Whitelist → Procedure ρ} {stage : RequestStage} :
    (w.after actions n).task? id ≠ some ⟨.whitelist role next, stage⟩ := by
  intro htask
  rcases hanswered with ⟨whitelist, hgrant⟩ | ⟨e, hdenied⟩
  · obtain ⟨next', stage', hbefore, hgoes⟩ := task?_of_granted hgrant
    rw [hbefore, Option.some.injEq] at ht
    subst ht
    obtain ⟨rest, rfl, hnext⟩ := Procedure.asksInTurn_whitelist_iff.1 hasks
    -- from here on the task asks those of `rest` alone, and the role is not among them
    obtain ⟨t', told, left, ht', rfl, hasks', -⟩ := asked_after hw hgoes (hnext _) hmn
    rw [htask, Option.some.injEq] at ht'
    subst ht'
    obtain ⟨last, rfl, -⟩ := Procedure.asksInTurn_whitelist_iff.1 hasks'
    exact (List.nodup_cons.1 hnodup).1 (by simp)
  · obtain ⟨-, -, -, hfailed⟩ := task?_of_denied hw hdenied
    rw [over_after hw hfailed rfl hmn] at htask
    cases htask

end Turn

/-! ## Running unaided -/

/-- A task that runs alone comes to this value by its own steps.  It waits for nothing, so no load
begins and the store is asked nothing, and the cache and the store stay as they are. -/
structure RunsUnaided (refusal : Role → Option Error) (id : TaskId) (w : World σ ρ) (value : ρ) :
    Prop where
  ends : ∃ n, ∀ m, n ≤ m → (runAlone refusal id m w).result? id = some (.ok value)
  own : ∀ n, runAlone refusal id n w = w.run (List.replicate n (.advance id))
  unasked : ∀ n role k, .asked role ∉ w.eventsAt (List.replicate n (.advance id)) k
  cache : ∀ n, (runAlone refusal id n w).cache = w.cache
  store : ∀ n, (runAlone refusal id n w).store = w.store

section Unaided

variable {refusal : Role → Option Error} {id : TaskId} {w : World σ ρ} {value : ρ}

/-- The store is asked in the steps of a load, and not in those of a task. -/
theorem not_asked_of_advance (w : World σ ρ) (id : TaskId) (n : Nat) (role : Role) (k : Nat) :
    .asked role ∉ w.eventsAt (List.replicate n (.advance id)) k := by
  intro hasked
  obtain ⟨a, ha, hshows⟩ := mem_eventsAt_iff.1 hasked
  cases hshows with
  | asked hflight => cases List.eq_of_mem_replicate (List.mem_of_getElem? ha)

theorem RunsUnaided.of_done {stage : RequestStage} (h : w.task? id = some ⟨.done value, stage⟩) :
    RunsUnaided refusal id w value := by
  have hresult := result?_of_done h
  have hstays (n : Nat) : runAlone refusal id n w = w := runAlone_of_over hresult n
  have hadvance : w.advance id = w := advance_of_over h rfl
  refine ⟨⟨0, fun m _ => by rw [hstays, hresult]⟩, fun n => ?_, not_asked_of_advance w id,
    fun n => by rw [hstays], fun n => by rw [hstays]⟩
  rw [hstays]
  induction n with
  | zero => rfl
  | succ n ih =>
    rw [List.replicate_succ, run, List.foldl_cons, step, hadvance]
    exact ih

theorem RunsUnaided.of_advance (hown : nextAlone refusal id w = w.advance id)
    (hcache : (w.advance id).cache = w.cache) (hstore : (w.advance id).store = w.store)
    (h : RunsUnaided refusal id (w.advance id) value) : RunsUnaided refusal id w value := by
  have hnext (n : Nat) : runAlone refusal id (n + 1) w = runAlone refusal id n (w.advance id) := by
    rw [runAlone, hown]
  obtain ⟨n, hn⟩ := h.ends
  refine ⟨⟨n + 1, fun m hm => ?_⟩, fun m => ?_, not_asked_of_advance w id, fun m => ?_, fun m => ?_⟩
  · obtain ⟨k, rfl⟩ := Nat.exists_eq_add_of_le' hm
    rw [← Nat.add_assoc, hnext]
    exact hn (k + n) (Nat.le_add_left n k)
  · cases m with
    | zero => rfl
    | succ m =>
      rw [hnext, h.own]
      rfl
  · cases m with
    | zero => rfl
    | succ m => rw [hnext, h.cache, hcache]
  · cases m with
    | zero => rfl
    | succ m => rw [hnext, h.store, hstore]

theorem nextAlone_of_start {p : Procedure ρ} (h : w.task? id = some (Task.start p)) :
    nextAlone refusal id w = w.advance id := by
  rw [nextAlone, h]
  cases p <;> rfl

/-- An answer that comes at once. -/
theorem RunsUnaided.of_resume {p q : Procedure ρ} (htask : w.task? id = some (Task.start p))
    (hadvance : w.advance id = w.resume id q) (h : RunsUnaided refusal id (w.resume id q) value) :
    RunsUnaided refusal id w value := by
  refine .of_advance (nextAlone_of_start htask) ?_ ?_ ?_
  all_goals rw [hadvance]
  · rfl
  · rfl
  · exact h

/-- A request for an entry that is resident and up to date takes three steps. -/
theorem RunsUnaided.of_resident {role : Role} {next : Whitelist → Procedure ρ}
    {entry : Cache.Entry}
    (htask : w.task? id = some (Task.start (.whitelist role next)))
    (hentry : w.cache.entry? role = some entry)
    (hdate : entry.generation = w.cache.generation role)
    (h : ∀ v : World σ ρ, v.cache = w.cache →
      v.task? id = some (Task.start (next entry.whitelist)) → RunsUnaided refusal id v value) :
    RunsUnaided refusal id w value := by
  have hfound : w.advance id = w.setTask id ⟨.whitelist role next, .holding entry⟩ := by
    simp [advance, htask, Task.start, request, hentry]
  refine .of_advance (nextAlone_of_start htask) (by rw [hfound]; rfl)
    (by rw [hfound]; rfl) ?_
  have hholding : (w.advance id).task? id = some ⟨.whitelist role next, .holding entry⟩ := by
    rw [hfound, task?_setTask, if_pos rfl]
  have hcache : (w.advance id).cache = w.cache := by rw [hfound, cache_setTask]
  generalize w.advance id = u at hholding hcache
  have hcounts : u.advance id =
      u.setTask id ⟨.whitelist role next, .counted entry (u.cache.counter role)⟩ := by
    simp [advance, hholding, request]
  refine .of_advance (by simp [nextAlone, hholding]) (by rw [hcounts]; rfl)
    (by rw [hcounts]; rfl) ?_
  have hcounted : (u.advance id).task? id =
      some ⟨.whitelist role next, .counted entry (w.cache.counter role)⟩ := by
    rw [hcounts, task?_setTask, if_pos rfl, hcache]
  have hcache' : (u.advance id).cache = w.cache := by rw [hcounts, cache_setTask, hcache]
  generalize u.advance id = v at hcounted hcache'
  have hgrants : v.advance id = v.resume id (next entry.whitelist) := by
    simp only [advance, hcounted, request, hcache']
    exact if_pos hdate
  refine .of_advance (by simp [nextAlone, hcounted]) (by rw [hgrants]; rfl)
    (by rw [hgrants]; rfl) (h _ ?_ ?_)
  · rw [hgrants, cache_resume, hcache']
  · rw [hgrants, task?_resume, if_pos rfl]

/-- A procedure that has all its answers in an up-to-date cache runs unaided. -/
theorem RunsUnaided.of_hits {p : Procedure ρ} (htask : w.task? id = some (Task.start p))
    (hdate : w.UpToDate) (h : p.Hits w.cache value) : RunsUnaided refusal id w value := by
  induction p generalizing w with
  | done v =>
    have hv : v = value := h
    subst hv
    exact .of_done htask
  | whitelist role next ih =>
    obtain ⟨entry, hentry, hnext⟩ := h
    refine .of_resident htask hentry (hdate role entry hentry) fun v hv hgoes => ?_
    refine ih entry.whitelist hgoes (fun r e he => ?_) ?_
    · rw [hv] at he ⊢
      exact hdate r e he
    · rw [hv]
      exact hnext
  | _ => exact h.elim

end Unaided

end World

end AuditTrail
