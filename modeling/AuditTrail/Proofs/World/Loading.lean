import AuditTrail.Proofs.World.Freshness
import AuditTrail.Proofs.World.Request

/-!
# Loads from their question to their end

A load asks the store once and ends once (`LoadEnds`), and between the two it is in flight at every
moment (`LoadEnds.isLoading`).  A whitelist that has been loaded is checked against the generation
before it is handed out.  An error is not: those who wait are told of it as it is, whenever the load
asked the store, so an error can be older than the last invalidation (`denial_follows_iff`).
-/

namespace AuditTrail.World

variable {σ ρ : Type}

/-- Whether an action moves the load of the role. -/
def Action.carries (role : Role) : Action σ ρ → Bool
  | .proceed r => decide (r = role)
  | _ => false

theorem eq_proceed_of_carries {role : Role} {a : Action σ ρ} (h : a.carries role = true) :
    a = .proceed role := by
  cases a with
  | proceed r => rw [of_decide_eq_true h]
  | _ => cases h

/-- The store has been asked for the role, and the load has not ended. -/
def IsLoading (w : World σ ρ) (role : Role) : Prop :=
  ∃ flight, w.cache.flight? role = some flight ∧ flight.stage.left ≤ 1

variable [WhitelistStore σ]

/-! ## One step of a load in flight -/

section Step

variable {w : World σ ρ} {role : Role} {flight : Cache.Flight}

theorem left_of_loadMoves {stage stage' : Cache.LoadStage} (h : w.LoadMoves role stage stage') :
    stage.left = stage'.left + 1 := by
  cases h <;> rfl

/-- What becomes of a load in flight: it goes on, with all who wait for it, or it ends. -/
theorem flight?_step_of_some (h : w.cache.flight? role = some flight) (a : Action σ ρ) :
    (∃ flight', (w.step a).cache.flight? role = some flight' ∧
        flight.waiters ⊆ flight'.waiters ∧
        flight'.stage.left = flight.stage.left - if a.carries role then 1 else 0) ∨
      ∃ outcome, .landed role outcome ∈ w.events a := by
  have hstays (c : Cache) (hc : c.flight? role = w.cache.flight? role) :
      ∃ flight', c.flight? role = some flight' ∧ flight.waiters ⊆ flight'.waiters ∧
        flight'.stage.left = flight.stage.left :=
    ⟨flight, hc.trans h, List.Subset.refl _, rfl⟩
  cases a with
  | spawn id p =>
    refine Or.inl (hstays _ ?_)
    rw [step]
    split <;> rfl
  | changeStore store => exact Or.inl (hstays _ rfl)
  | changeGraph graph => exact Or.inl (hstays _ rfl)
  | advance id =>
    refine Or.inl ?_
    have htouch := touches_advance w id
    rw [step]
    generalize (w.advance id).cache = c at htouch
    cases htouch with
    | nothing => exact hstays _ rfl
    | drops htask => exact hstays _ (Cache.flight?_discard _ _ _)
    | discards htask => exact hstays _ (Cache.flight?_discard _ _ _)
    | bumps htask => exact hstays _ (Cache.flight?_bump _ _ _)
    | @joins _ r next htask habsent =>
      by_cases hr : r = role
      · refine ⟨⟨flight.stage, flight.waiters ++ [id]⟩, ?_, List.subset_append_left _ _, rfl⟩
        rw [Cache.flight?_join, if_pos hr, h]
        rfl
      · exact hstays _ (by rw [Cache.flight?_join, if_neg hr])
  | proceed r =>
    refine Or.inl ?_
    by_cases hr : r = role
    · subst hr
      obtain ⟨stage', hstage', hcase⟩ := flight?_proceed h
      refine ⟨⟨stage', flight.waiters⟩, hstage', List.Subset.refl _, ?_⟩
      rw [Action.carries, decide_eq_true rfl, if_pos rfl]
      rcases hcase with hmoves | ⟨rfl, generation, answer, hanswered⟩
      · rw [left_of_loadMoves hmoves, Nat.add_sub_cancel]
      · rw [hanswered]
        rfl
    · have htouch := touches_proceed w r
      rw [step, Action.carries, decide_eq_false hr]
      generalize (w.proceed r).cache = c at htouch
      cases htouch with
      | nothing => exact hstays _ rfl
      | goesOn hf hmoves => exact hstays _ (by rw [Cache.flight?_setStage, if_neg hr])
  | deliver r refusal =>
    rcases answered_or_deliver_eq w r refusal with ⟨generation, answer, waiters, hf⟩ | heq
    · by_cases hr : r = role
      · subst hr
        exact Or.inr ⟨_, mem_events_of_shows (.landed hf)⟩
      · exact Or.inl (hstays _ (by rw [step, flight?_deliver hf, if_neg hr]))
    · exact Or.inl (hstays _ (by rw [step, heq]))

theorem isLoading_step (h : w.IsLoading role) (a : Action σ ρ) :
    (w.step a).IsLoading role ∨ ∃ outcome, .landed role outcome ∈ w.events a := by
  obtain ⟨flight, hflight, hleft⟩ := h
  rcases flight?_step_of_some hflight a with ⟨flight', hflight', -, hleft'⟩ | hlanded
  · exact Or.inl ⟨flight', hflight', by omega⟩
  · exact Or.inr hlanded

/-- A load that is in flight after a step was so before, or the step has asked the store. -/
theorem isLoading_of_step {a : Action σ ρ} (h : (w.step a).IsLoading role) :
    w.IsLoading role ∨ .asked role ∈ w.events a := by
  obtain ⟨flight', hflight', hleft⟩ := h
  rcases flight?_step hflight' with hkept | ⟨id, next, -, -, -, hjoined⟩ |
    ⟨⟨stage, waiters⟩, rfl, hf, -, hmoves⟩
  · exact Or.inl ⟨flight', hkept, hleft⟩
  · rw [hjoined] at hleft
    cases hf : w.cache.flight? role with
    | none =>
      rw [hf] at hleft
      exact absurd hleft (by simp [Cache.LoadStage.left])
    | some flight =>
      rw [hf] at hleft
      exact Or.inl ⟨flight, hf, hleft⟩
  · obtain ⟨stage', waiters'⟩ := flight'
    cases hmoves with
    | counted => exact absurd hleft (by simp [Cache.LoadStage.left])
    | stamped => exact absurd hleft (by simp [Cache.LoadStage.left])
    | asked => exact Or.inr (mem_events_of_shows (.asked hf))
    | answered => exact Or.inl ⟨_, hf, Nat.le_refl 1⟩

end Step

/-! ## Loads over time -/

variable {w : World σ ρ} {actions : List (Action σ ρ)} {role : Role} {id : TaskId} {m n : Nat}

theorem isLoading_succ (h : (w.after actions n).IsLoading role) :
    (w.after actions (n + 1)).IsLoading role ∨
      ∃ outcome, .landed role outcome ∈ w.eventsAt actions n := by
  cases ha : actions[n]? with
  | none =>
    rw [after_succ_of_none ha]
    exact Or.inl h
  | some a =>
    rw [after_succ ha, eventsAt_of_some ha]
    exact isLoading_step h a

theorem isLoading_of_succ (h : (w.after actions (n + 1)).IsLoading role) :
    (w.after actions n).IsLoading role ∨ .asked role ∈ w.eventsAt actions n := by
  cases ha : actions[n]? with
  | none =>
    rw [after_succ_of_none ha] at h
    exact Or.inl h
  | some a =>
    rw [after_succ ha] at h
    rw [eventsAt_of_some ha]
    exact isLoading_of_step h

/-- A load that does not end stays in flight. -/
theorem isLoading_of_not_landed (h : (w.after actions m).IsLoading role)
    (hnot : ∀ k outcome, m ≤ k → k < n → .landed role outcome ∉ w.eventsAt actions k)
    (hmn : m ≤ n) : (w.after actions n).IsLoading role := by
  induction hmn with
  | refl => exact h
  | @step n hmn ih =>
    have hbefore := ih fun k outcome hk hkn => hnot k outcome hk (Nat.lt_succ_of_lt hkn)
    rcases isLoading_succ hbefore with hafter | ⟨outcome, hlanded⟩
    · exact hafter
    · exact absurd hlanded (hnot n outcome hmn (Nat.lt_succ_self n))

theorem not_isLoading_of_asked (h : .asked role ∈ w.eventsAt actions n) :
    ¬ (w.after actions n).IsLoading role := by
  rintro ⟨flight, hflight, hleft⟩
  obtain ⟨a, -, hshows⟩ := mem_eventsAt_iff.1 h
  cases hshows with
  | asked hf =>
    rw [hflight, Option.some.injEq] at hf
    rw [hf] at hleft
    exact absurd hleft (by simp [Cache.LoadStage.left])

theorem isLoading_succ_of_asked (h : .asked role ∈ w.eventsAt actions n) :
    (w.after actions (n + 1)).IsLoading role := by
  obtain ⟨a, ha, hshows⟩ := mem_eventsAt_iff.1 h
  cases hshows with
  | asked hflight =>
    rw [after_succ ha]
    obtain ⟨stage, hstage, hmoves | ⟨-, generation, answer, hanswered⟩⟩ := flight?_proceed hflight
    · refine ⟨_, hstage, ?_⟩
      cases hmoves with
      | asked => exact Nat.le_refl 1
    · cases hanswered

theorem isLoading_of_landed {outcome : Except Error Whitelist}
    (h : .landed role outcome ∈ w.eventsAt actions n) : (w.after actions n).IsLoading role := by
  obtain ⟨a, -, hshows⟩ := mem_eventsAt_iff.1 h
  cases hshows with
  | landed hf => exact ⟨_, hf, Nat.zero_le 1⟩

theorem not_isLoading_after_landed {outcome : Except Error Whitelist}
    (h : .landed role outcome ∈ w.eventsAt actions n) :
    ¬ (w.after actions (n + 1)).IsLoading role := by
  rintro ⟨flight, hflight, -⟩
  obtain ⟨a, ha, hshows⟩ := mem_eventsAt_iff.1 h
  cases hshows with
  | landed hf =>
    rw [after_succ ha, step, flight?_deliver hf, if_pos rfl] at hflight
    cases hflight

/-! ## One load -/

/-- A load of the store that began at one time and came to this outcome at another.  Between the two
the store was not asked for the role again, so the outcome is the outcome of this load.  It is what
the store has answered, unless the load was refused at the end. -/
structure LoadEnds (w : World σ ρ) (actions : List (Action σ ρ)) (role : Role)
    (outcome : Except Error Whitelist) (asked landed : Nat) : Prop where
  asks : .asked role ∈ w.eventsAt actions asked
  answers : ∃ n answer refusal, asked < n ∧ n < landed ∧
    .answered role answer ∈ w.eventsAt actions n ∧
    actions[landed]? = some (.deliver role refusal) ∧ outcome = Cache.outcome answer refusal
  lands : .landed role outcome ∈ w.eventsAt actions landed
  past : asked < landed
  only : ∀ n, asked < n → n ≤ landed → .asked role ∉ w.eventsAt actions n

/-- Whatever lands is the outcome of one load. -/
theorem loadEnds_of_landed (hw : w.IsNew) {outcome : Except Error Whitelist}
    (h : .landed role outcome ∈ w.eventsAt actions n) :
    ∃ asked, LoadEnds w actions role outcome asked n := by
  obtain ⟨a, ha, hshows⟩ := mem_eventsAt_iff.1 h
  cases hshows with
  | @landed _ refusal generation answer waiters hflight =>
    obtain ⟨asked, answered, hasked, hpast, hbefore, hanswer⟩ :=
      reached_of_flight? hw role _ hflight
    refine ⟨asked, hasked.asks, ⟨answered, answer, refusal, hpast, hbefore, hanswer, ha, rfl⟩, h,
      hasked.past, fun k hk hkn => ?_⟩
    rcases Nat.lt_or_eq_of_le hkn with hlt | rfl
    · exact hasked.only k hk hlt
    · exact not_asked_of_flight? hflight fun g => by simp

/-- From its question to its end a load is in flight. -/
theorem LoadEnds.isLoading {outcome : Except Error Whitelist} {asked landed time : Nat}
    (h : LoadEnds w actions role outcome asked landed) (hasked : asked < time)
    (htime : time ≤ landed) : (w.after actions time).IsLoading role := by
  obtain ⟨d, hd⟩ := Nat.exists_eq_add_of_le htime
  induction d generalizing time with
  | zero =>
    rw [Nat.add_zero] at hd
    subst hd
    exact isLoading_of_landed h.lands
  | succ d ih =>
    have hnext := ih (Nat.lt_succ_of_lt hasked) (by omega) (by omega)
    exact (isLoading_of_succ hnext).resolve_right (h.only time hasked htime)

/-- A load asks the store after a given moment exactly if no load was in flight right after it, or
the load that was has ended in time. -/
theorem LoadEnds.lt_asked_iff {outcome : Except Error Whitelist} {asked landed time : Nat}
    (h : LoadEnds w actions role outcome asked landed) (htime : time < landed) :
    time < asked ↔ ¬ (w.after actions (time + 1)).IsLoading role ∨
      ∃ n other, time < n ∧ n < landed ∧ .landed role other ∈ w.eventsAt actions n := by
  constructor
  · intro hlt
    refine Classical.or_iff_not_imp_left.2 fun hloading => Classical.byContradiction fun hnone => ?_
    rw [Classical.not_not] at hloading
    refine not_isLoading_of_asked h.asks (isLoading_of_not_landed hloading ?_ hlt)
    intro k other hk hkn hlanded
    exact hnone ⟨k, other, hk, Nat.lt_trans hkn h.past, hlanded⟩
  · intro hcase
    refine Nat.lt_of_not_le fun hle => ?_
    rcases hcase with hidle | ⟨n, other, hn, hnl, hlanded⟩
    · exact hidle (h.isLoading (Nat.lt_succ_of_le hle) htime)
    · refine not_isLoading_after_landed hlanded (h.isLoading ?_ hnl)
      exact Nat.lt_succ_of_lt (Nat.lt_of_le_of_lt hle hn)

/-! ## Denials -/

theorem landed_of_denied {e : Error} (h : .denied id role e ∈ w.eventsAt actions n) :
    ∃ error, .landed role (.error error) ∈ w.eventsAt actions n ∧ e = error.relayed := by
  obtain ⟨a, ha, hshows⟩ := mem_eventsAt_iff.1 h
  cases hshows with
  | @denied _ refusal generation answer waiters _ error hflight hout hid =>
    refine ⟨error, ?_, rfl⟩
    rw [← hout]
    exact mem_eventsAt_iff.2 ⟨_, ha, .landed hflight⟩

/-- A request that is denied is told of one load that failed.  That load asked the store after a
given moment, such as the end of an invalidation, exactly if no load of the role was in flight then,
or the one that was has ended before the request is denied. -/
theorem denial_follows_iff (hw : w.IsNew) {time deny : Nat} {e : Error} (htime : time < deny)
    (hdenied : .denied id role e ∈ w.eventsAt actions deny) :
    ∃ asked error, LoadEnds w actions role (.error error) asked deny ∧ e = error.relayed ∧
      (time < asked ↔ ¬ (w.after actions (time + 1)).IsLoading role ∨
        ∃ n other, time < n ∧ n < deny ∧ .landed role other ∈ w.eventsAt actions n) := by
  obtain ⟨error, hlanded, he⟩ := landed_of_denied hdenied
  obtain ⟨asked, hload⟩ := loadEnds_of_landed hw hlanded
  exact ⟨asked, error, hload, he, hload.lt_asked_iff htime⟩

namespace Outage

open Overtaken SampleRole

def down : Error := .store (.stated "down")

/-- A load is in flight when the role is invalidated.  A request that comes after the invalidation
joins it, and then it fails. -/
def joining (e : Error) : List (Action MemoryStore Whitelist) :=
  [.spawn 1 (.whitelistOf auditor), .advance 1, .proceed auditor, .proceed auditor,
    .proceed auditor, .proceed auditor,
    .spawn 2 ((Procedure.invalidate (.role auditor)).andThen fun _ => .done ∅), .advance 2,
    .advance 2, .spawn 3 (.whitelistOf auditor), .advance 3, .deliver auditor (some e)]

/-- The load fails before the request comes, which then begins a load of its own. -/
def following : List (Action MemoryStore Whitelist) :=
  [.spawn 1 (.whitelistOf auditor), .advance 1, .proceed auditor, .proceed auditor,
    .proceed auditor, .proceed auditor,
    .spawn 2 ((Procedure.invalidate (.role auditor)).andThen fun _ => .done ∅), .advance 2,
    .advance 2, .deliver auditor (some down), .spawn 3 (.whitelistOf auditor), .advance 3,
    .proceed auditor, .proceed auditor, .proceed auditor, .proceed auditor,
    .deliver auditor (some down)]

end Outage

open Overtaken Outage SampleRole in
theorem denial_follows_iff_following :
    ∃ asked, 8 < asked ∧
      LoadEnds Overtaken.world following auditor (.error down) asked 16 := by
  have hdenied : .denied 3 auditor down ∈ Overtaken.world.eventsAt following 16 := by
    decide +kernel
  have hlanded : .landed auditor (.error down) ∈ Overtaken.world.eventsAt following 9 := by
    decide +kernel
  obtain ⟨asked, error, hload, -, hiff⟩ :=
    denial_follows_iff ⟨⟨true, rfl⟩, rfl⟩ (show 8 < 16 by decide) hdenied
  have houtcome : .landed auditor (.error error) ∈ Overtaken.world.eventsAt following 16 :=
    hload.lands
  have hevents : Overtaken.world.eventsAt following 16 =
      [.landed auditor (.error down), .denied 3 auditor down] := by
    decide +kernel
  rw [hevents] at houtcome
  obtain rfl : error = down := by simpa using houtcome
  exact ⟨asked, hiff.2 (Or.inr ⟨9, _, by decide, by decide, hlanded⟩), hload⟩

open Overtaken Outage SampleRole in
/-- A request that begins after an invalidation has ended can be denied for a load from before. -/
theorem denial_precedes_invalidation :
    .discarded (.role auditor) ∈ Overtaken.world.eventsAt (joining down) 8 ∧
      .consulted 3 auditor ∈ Overtaken.world.eventsAt (joining down) 10 ∧
      .denied 3 auditor down ∈ Overtaken.world.eventsAt (joining down) 11 ∧
      ¬ ∃ asked error, 8 < asked ∧
        LoadEnds Overtaken.world (joining down) auditor (.error error) asked 11 := by
  refine ⟨by decide +kernel, by decide +kernel, by decide +kernel, ?_⟩
  rintro ⟨asked, error, hlt, hload⟩
  have hidle : ∀ n, 8 < n → n < 11 →
      .asked auditor ∉ Overtaken.world.eventsAt (joining down) n := by
    intro n hn hn'
    have hcases : n = 9 ∨ n = 10 := by omega
    rcases hcases with rfl | rfl <;> decide +kernel
  exact hidle asked hlt hload.past hload.asks

end AuditTrail.World
