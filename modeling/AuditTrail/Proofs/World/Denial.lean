import AuditTrail.Proofs.World.Loading

/-!
# Loads that fail

A failing load leaves nothing behind.  It changes no entry, it gives no one a whitelist, and all who
wait for it are told the same error, which is one of lookup.  A request that finds neither an entry
nor a load in flight begins a load of its own, whatever has failed before (`failures_contained`).
-/

namespace AuditTrail.World

variable {σ ρ : Type}

/-- A task that waits is on the list of the load in flight for its role. -/
def WaitingListed (w : World σ ρ) : Prop :=
  ∀ id role next, w.task? id = some ⟨.whitelist role next, .waiting⟩ →
    ∃ flight, w.cache.flight? role = some flight ∧ id ∈ flight.waiters

/-- How often the load of the role has been moved between two moments. -/
def carried (actions : List (Action σ ρ)) (role : Role) (first last : Nat) : Nat :=
  ((actions.take last).drop first).countP (·.carries role)

/-- The task waits for a load that has not asked the store yet, and has been moved so often. -/
def Approaches (w : World σ ρ) (id : TaskId) (role : Role) (moves : Nat) : Prop :=
  ∃ flight, w.cache.flight? role = some flight ∧ id ∈ flight.waiters ∧
    2 ≤ flight.stage.left ∧ flight.stage.left + moves = 4

variable [WhitelistStore σ]

/-! ## Those who wait are on the list -/

section Step

variable {w : World σ ρ} {id : TaskId} {role : Role} {next : Whitelist → Procedure ρ}

/-- The only move after which a task waits is that it joins a load. -/
theorem joined_of_moves {a : Action σ ρ} {t t' : Task ρ} (h : w.Moves id a t t')
    (ht' : t' = ⟨.whitelist role next, .waiting⟩) :
    a = .advance id ∧ t = ⟨.whitelist role next, .probing⟩ ∧ w.cache.entry? role = none := by
  have hstage : t'.stage = .waiting := by rw [ht']
  cases h with
  | joined habsent =>
    cases ht'
    exact ⟨rfl, rfl, habsent⟩
  | @received r refusal generation answer waiters _ hflight hid =>
    cases hout : Cache.outcome answer refusal with
    | ok whitelist =>
      rw [hout] at hstage
      cases hstage
    | error e =>
      rw [hout] at hstage
      cases hstage
  | _ => cases hstage

theorem cache_advance_of_absent (h : w.task? id = some ⟨.whitelist role next, .probing⟩)
    (habsent : w.cache.entry? role = none) : (w.advance id).cache = w.cache.join role id := by
  simp [advance, h, request, habsent]

/-- One who is on the list when the load ends does not wait any more. -/
theorem not_waiting_of_landed {a : Action σ ρ} {outcome : Except Error Whitelist}
    {flight : Cache.Flight} (hlanded : .landed role outcome ∈ w.events a)
    (hflight : w.cache.flight? role = some flight) (hid : id ∈ flight.waiters) :
    (w.step a).task? id ≠ some ⟨.whitelist role next, .waiting⟩ := by
  intro hstill
  cases shows_of_mem_events hlanded with
  | @landed _ refusal generation answer waiters hf =>
    rw [hf, Option.some.injEq] at hflight
    subst hflight
    rw [step, task?_deliver hf] at hstill
    obtain ⟨t, -, ht⟩ := Option.map_eq_some_iff.1 hstill
    rw [if_pos hid] at ht
    have hstage : (t.receive generation (Cache.outcome answer refusal)).stage = .waiting := by
      rw [ht]
    cases hout : Cache.outcome answer refusal with
    | ok whitelist =>
      rw [hout] at hstage
      cases hstage
    | error e =>
      rw [hout] at hstage
      cases hstage

theorem waitingListed_step (h : WaitingListed w) (a : Action σ ρ) : WaitingListed (w.step a) := by
  intro id role next htask
  have hkeeps : w.task? id = some ⟨.whitelist role next, .waiting⟩ →
      ∃ flight, (w.step a).cache.flight? role = some flight ∧ id ∈ flight.waiters := by
    intro hbefore
    obtain ⟨flight, hflight, hid⟩ := h id role next hbefore
    rcases flight?_step_of_some hflight a with ⟨flight', hflight', hsubset, -⟩ |
      ⟨outcome, hlanded⟩
    · exact ⟨flight', hflight', hsubset hid⟩
    · exact absurd htask (not_waiting_of_landed hlanded hflight hid)
  cases hbefore : w.task? id with
  | none =>
    rcases task?_step_of_none hbefore a with hnone | ⟨p, -, hp⟩
    · rw [hnone] at htask
      cases htask
    · rw [hp] at htask
      cases htask
  | some t =>
    obtain ⟨t', ht', hcase⟩ := task?_step hbefore a
    rw [htask, Option.some.injEq] at ht'
    rcases hcase with rfl | hmoves
    · exact hkeeps (by rw [hbefore, ht'])
    · obtain ⟨rfl, rfl, habsent⟩ := joined_of_moves hmoves ht'.symm
      rw [step, cache_advance_of_absent hbefore habsent, Cache.flight?_join, if_pos rfl]
      exact ⟨_, rfl, List.mem_append_right _ (List.mem_singleton_self id)⟩

/-- A request goes on, is granted, or is denied. -/
theorem request_step (hwait : WaitersWait w) {stage : RequestStage}
    (h : w.task? id = some ⟨.whitelist role next, stage⟩) (a : Action σ ρ) :
    (∃ stage', (w.step a).task? id = some ⟨.whitelist role next, stage'⟩) ∨
      (∃ whitelist, .granted id role whitelist ∈ w.events a ∧
        (w.step a).task? id = some (Task.start (next whitelist))) ∨
      ∃ e, .denied id role e ∈ w.events a ∧
        (w.step a).task? id = some (Task.start (.failed e)) := by
  obtain ⟨t', ht', rfl | hmoves⟩ := task?_step h a
  · exact Or.inl ⟨stage, ht'⟩
  · cases hmoves with
    | found hentry => exact Or.inl ⟨_, ht'⟩
    | joined habsent => exact Or.inl ⟨_, ht'⟩
    | counted => exact Or.inl ⟨_, ht'⟩
    | granted hgen => exact Or.inr (Or.inl ⟨_, mem_events_of_shows (.granted h hgen), ht'⟩)
    | refuted hgen => exact Or.inl ⟨_, ht'⟩
    | retried => exact Or.inl ⟨_, ht'⟩
    | @received r refusal generation answer waiters _ hflight hid =>
      obtain ⟨next', hnext'⟩ := hwait r _ id hflight hid
      rw [h] at hnext'
      cases hnext'
      cases hout : Cache.outcome answer refusal with
      | ok whitelist =>
        rw [hout] at ht'
        exact Or.inl ⟨_, ht'⟩
      | error e =>
        rw [hout] at ht'
        exact Or.inr (Or.inr ⟨_, mem_events_of_shows (.denied hflight hout hid), ht'⟩)

/-- A step of a load changes no entry unless the load ends well. -/
theorem entry?_step_of_load {a : Action σ ρ}
    (ha : a = .proceed role ∨ ∃ refusal, a = .deliver role refusal)
    (hnot : ∀ whitelist, .landed role (.ok whitelist) ∉ w.events a) (r : Role) :
    (w.step a).cache.entry? r = w.cache.entry? r := by
  rcases ha with rfl | ⟨refusal, rfl⟩
  · exact entry?_proceed w role r
  · rcases answered_or_deliver_eq w role refusal with ⟨generation, answer, waiters, hf⟩ | heq
    · cases hout : Cache.outcome answer refusal with
      | ok whitelist =>
        refine absurd ?_ (hnot whitelist)
        rw [← hout]
        exact mem_events_of_shows (.landed hf)
      | error e => exact entry?_deliver_error hf hout r
    · rw [step, heq]

end Step

variable {w : World σ ρ} {actions : List (Action σ ρ)} {role : Role} {id : TaskId} {m n : Nat}

theorem waitingListed_after (hw : w.IsNew) : WaitingListed (w.after actions n) := by
  refine after_induction_from (P := fun _ w' => WaitingListed w') (m := 0) ?_ ?_ ?_ (Nat.zero_le n)
  · intro id role next htask
    rw [after_zero, task?, hw.tasks] at htask
    simp at htask
  · exact fun _ _ _ ih => ih
  · exact fun _ a _ _ ih => waitingListed_step ih a

/-! ## Who is denied -/

/-- Whoever waits when a load fails is told of it. -/
theorem denied_of_waiting (hw : w.IsNew) {error : Error} {next : Whitelist → Procedure ρ}
    (hlanded : .landed role (.error error) ∈ w.eventsAt actions n)
    (htask : (w.after actions n).task? id = some ⟨.whitelist role next, .waiting⟩) :
    .denied id role error.relayed ∈ w.eventsAt actions n := by
  obtain ⟨flight, hflight, hid⟩ := waitingListed_after hw id role next htask
  obtain ⟨a, ha, hshows⟩ := mem_eventsAt_iff.1 hlanded
  refine mem_eventsAt_iff.2 ⟨a, ha, ?_⟩
  generalize houtcome : Except.error error = outcome at hshows
  cases hshows with
  | landed hf =>
    rw [hf, Option.some.injEq] at hflight
    subst hflight
    exact .denied hf houtcome.symm hid

theorem relayed_of_not_isLookup {e : Error} (h : e.isLookup = false) :
    e.relayed = .store (.stated e.message) := by
  cases e <;> first | rfl | cases h

/-! ## A load that begins -/

omit [WhitelistStore σ] in
theorem carried_self (actions : List (Action σ ρ)) (role : Role) (n : Nat) :
    carried actions role n n = 0 := by
  rw [carried, List.drop_eq_nil_of_le (List.length_take_le n actions)]
  rfl

omit [WhitelistStore σ] in
theorem carried_succ_of_none (h : actions[n]? = none) :
    carried actions role m (n + 1) = carried actions role m n := by
  rw [carried, carried, List.take_add_one, h, Option.toList_none, List.append_nil]

omit [WhitelistStore σ] in
theorem carried_succ {a : Action σ ρ} (hmn : m ≤ n) (h : actions[n]? = some a) :
    carried actions role m (n + 1) =
      carried actions role m n + if a.carries role then 1 else 0 := by
  obtain ⟨hlt, -⟩ := List.getElem?_eq_some_iff.1 h
  have hlength : m ≤ (actions.take n).length := by
    rw [List.length_take]
    omega
  rw [carried, carried, List.take_add_one, h, Option.toList_some,
    List.drop_append_of_le_length hlength, List.countP_append, List.countP_singleton]

/-- One step of a load that has not asked the store: it still has not, or it asks. -/
theorem approaches_step {w : World σ ρ} {moves : Nat} (h : Approaches w id role moves)
    (a : Action σ ρ) :
    .asked role ∈ w.events a ∨
      Approaches (w.step a) id role (moves + if a.carries role then 1 else 0) := by
  obtain ⟨⟨stage, waiters⟩, hflight, hid, htwo, hmoves⟩ := h
  rcases flight?_step_of_some hflight a with ⟨flight', hflight', hsubset, hleft⟩ |
    ⟨outcome, hlanded⟩
  · by_cases hcarries : a.carries role = true
    · rw [if_pos hcarries] at hleft ⊢
      obtain rfl := eq_proceed_of_carries hcarries
      cases stage with
      | begun =>
        have hthree : flight'.stage.left = 3 := hleft
        have hfour : 4 + moves = 4 := hmoves
        exact Or.inr ⟨flight', hflight', hsubset hid, by omega, by omega⟩
      | counted counter =>
        have hleft' : flight'.stage.left = 2 := hleft
        have hthree : 3 + moves = 4 := hmoves
        exact Or.inr ⟨flight', hflight', hsubset hid, by omega, by omega⟩
      | stamped generation => exact Or.inl (mem_events_of_shows (.asked hflight))
      | asked generation => exact absurd htwo (by simp [Cache.LoadStage.left])
      | answered generation answer => exact absurd htwo (by simp [Cache.LoadStage.left])
    · rw [if_neg hcarries, Nat.sub_zero] at hleft
      rw [if_neg hcarries, Nat.add_zero]
      exact Or.inr ⟨flight', hflight', hsubset hid, by rw [hleft]; exact ⟨htwo, hmoves⟩⟩
  · cases shows_of_mem_events hlanded with
    | landed hf =>
      rw [hflight, Option.some.injEq, Cache.Flight.mk.injEq] at hf
      rw [hf.1] at htwo
      exact absurd htwo (by simp [Cache.LoadStage.left])

/-- Until it asks the store, a load that has begun is in flight. -/
theorem asked_or_approaches (hbegun : (w.after actions m).cache.flight? role = some ⟨.begun, [id]⟩)
    (hmn : m ≤ n) :
    (∃ asked, m ≤ asked ∧ asked < n ∧ .asked role ∈ w.eventsAt actions asked) ∨
      Approaches (w.after actions n) id role (carried actions role m n) := by
  refine after_induction_from (P := fun n (w' : World σ ρ) =>
    (∃ asked, m ≤ asked ∧ asked < n ∧ .asked role ∈ w.eventsAt actions asked) ∨
      Approaches w' id role (carried actions role m n)) ?_ ?_ ?_ hmn
  · refine Or.inr ⟨_, hbegun, List.mem_singleton_self id, ?_⟩
    rw [carried_self]
    exact ⟨by simp [Cache.LoadStage.left], rfl⟩
  · rintro k - ha (⟨asked, hm, hk, hasked⟩ | happroaches)
    · exact Or.inl ⟨asked, hm, Nat.lt_succ_of_lt hk, hasked⟩
    · rw [carried_succ_of_none ha]
      exact Or.inr happroaches
  · rintro k a hmk ha (⟨asked, hm, hk, hasked⟩ | happroaches)
    · exact Or.inl ⟨asked, hm, Nat.lt_succ_of_lt hk, hasked⟩
    · rcases approaches_step happroaches a with hasked | happroaches
      · refine Or.inl ⟨k, hmk, Nat.lt_succ_self k, ?_⟩
        rw [eventsAt_of_some ha]
        exact hasked
      · rw [carried_succ hmk ha]
        exact Or.inr happroaches

/-- One for whom a load is in flight that has not asked the store is not answered. -/
theorem not_answered_of_approaches {moves : Nat} (hwait : WaitersWait (w.after actions n))
    (h : Approaches (w.after actions n) id role moves) :
    (∀ whitelist, .granted id role whitelist ∉ w.eventsAt actions n) ∧
      ∀ e, .denied id role e ∉ w.eventsAt actions n := by
  obtain ⟨flight, hflight, hid, htwo, -⟩ := h
  refine ⟨fun whitelist hgranted => ?_, fun e hdenied => ?_⟩
  · obtain ⟨next, hnext⟩ := hwait role flight id hflight hid
    obtain ⟨a, -, hshows⟩ := mem_eventsAt_iff.1 hgranted
    cases hshows with
    | granted htask hgen =>
      rw [hnext] at htask
      cases htask
  · obtain ⟨a, -, hshows⟩ := mem_eventsAt_iff.1 hdenied
    cases hshows with
    | denied hf hout hmem =>
      rw [hflight, Option.some.injEq] at hf
      rw [hf] at htwo
      exact absurd htwo (by simp [Cache.LoadStage.left])

theorem begun_of_consulted (hconsulted : .consulted id role ∈ w.eventsAt actions n)
    (habsent : (w.after actions n).cache.entry? role = none)
    (hidle : (w.after actions n).cache.flight? role = none) :
    (w.after actions (n + 1)).cache.flight? role = some ⟨.begun, [id]⟩ := by
  obtain ⟨a, ha, hshows⟩ := mem_eventsAt_iff.1 hconsulted
  cases hshows with
  | consulted htask =>
    rw [after_succ ha, step, cache_advance_of_absent htask habsent, Cache.flight?_join, if_pos rfl,
      hidle]
    rfl

/-! ## Failures in a run -/

/-- What becomes of failing loads in a run. -/
structure FailuresContained (w : World σ ρ) (actions : List (Action σ ρ)) : Prop where
  /-- No step of a load, but the end of one that succeeds, changes an entry of any role. -/
  kept : ∀ n role r, (actions[n]? = some (.proceed role) ∨
    ∃ refusal, actions[n]? = some (.deliver role refusal)) →
    (∀ whitelist, .landed role (.ok whitelist) ∉ w.eventsAt actions n) →
    (w.after actions (n + 1)).cache.entry? r = (w.after actions n).cache.entry? r
  /-- Whatever is resident is what a load that succeeded gave. -/
  resident : ∀ n role entry, (w.after actions n).cache.entry? role = some entry →
    ∃ asked landed, landed < n ∧ LoadGives w actions role entry.whitelist asked landed
  /-- Whatever is handed out is what a load that succeeded gave. -/
  granted : ∀ n id role whitelist, .granted id role whitelist ∈ w.eventsAt actions n →
    ∃ asked landed, landed < n ∧ LoadGives w actions role whitelist asked landed
  /-- A request goes on, is granted a whitelist, or is denied one and has failed then. -/
  ends : ∀ n id role next stage,
    (w.after actions n).task? id = some ⟨.whitelist role next, stage⟩ →
      (∃ stage', (w.after actions (n + 1)).task? id = some ⟨.whitelist role next, stage'⟩) ∨
      (∃ whitelist, .granted id role whitelist ∈ w.eventsAt actions n ∧
        (w.after actions (n + 1)).task? id = some (Task.start (next whitelist))) ∨
      ∃ e, .denied id role e ∈ w.eventsAt actions n ∧
        (w.after actions (n + 1)).task? id = some (Task.start (.failed e))
  /-- A request is denied for a load of its role that fails at this moment.  It is told an error of
  lookup: that of the load if it is one, and one that quotes it otherwise.  All who wait for the
  load are told the same. -/
  denied : ∀ n id role e, .denied id role e ∈ w.eventsAt actions n →
    ∃ asked error, LoadEnds w actions role (.error error) asked n ∧ e.isLookup = true ∧
      (error.isLookup = true → e = error) ∧
      (error.isLookup = false → e = .store (.stated error.message)) ∧
      ∀ i next, (w.after actions n).task? i = some ⟨.whitelist role next, .waiting⟩ →
        .denied i role e ∈ w.eventsAt actions n
  /-- A request that finds neither an entry nor a load in flight begins a load.  The third step of
  that load asks the store, and until then the request is not answered. -/
  begins : ∀ n id role, .consulted id role ∈ w.eventsAt actions n →
    (w.after actions n).cache.entry? role = none →
    (w.after actions n).cache.flight? role = none →
      (w.after actions (n + 1)).cache.flight? role = some ⟨.begun, [id]⟩ ∧
      ∀ m, n < m → (3 ≤ carried actions role (n + 1) m ∨
        (∃ whitelist, .granted id role whitelist ∈ w.eventsAt actions m) ∨
        ∃ e, .denied id role e ∈ w.eventsAt actions m) →
        ∃ asked, n < asked ∧ asked < m ∧ .asked role ∈ w.eventsAt actions asked

theorem failures_contained (hw : w.IsNew) : FailuresContained w actions where
  kept n role r haction hnot := by
    cases ha : actions[n]? with
    | none => rw [after_succ_of_none ha]
    | some a =>
      rw [ha] at haction
      rw [eventsAt_of_some ha] at hnot
      rw [after_succ ha]
      refine entry?_step_of_load ?_ hnot r
      simpa using haction
  resident n role entry hentry := by
    obtain ⟨asked, landed, hlanded, hgives, -⟩ := sourced_of_resident hw role entry hentry
    exact ⟨asked, landed, hlanded, hgives⟩
  granted n id role whitelist hgranted := by
    obtain ⟨a, -, hshows⟩ := mem_eventsAt_iff.1 hgranted
    cases hshows with
    | granted htask hgen =>
      obtain ⟨asked, landed, hlanded, hgives, -⟩ :=
        sourced_of_held hw id role _ _ _ htask rfl
      exact ⟨asked, landed, hlanded, hgives⟩
  ends n id role next stage htask := by
    cases ha : actions[n]? with
    | none =>
      rw [after_succ_of_none ha]
      exact Or.inl ⟨stage, htask⟩
    | some a =>
      rw [after_succ ha, eventsAt_of_some ha]
      exact request_step (waitersWait_after hw) htask a
  denied n id role e hdenied := by
    obtain ⟨error, hlanded, rfl⟩ := landed_of_denied hdenied
    obtain ⟨asked, hload⟩ := loadEnds_of_landed hw hlanded
    exact ⟨asked, error, hload, error.isLookup_relayed, Error.relayed_of_isLookup,
      relayed_of_not_isLookup, fun i next htask => denied_of_waiting hw hlanded htask⟩
  begins n id role hconsulted habsent hidle := by
    have hbegun := begun_of_consulted hconsulted habsent hidle
    refine ⟨hbegun, fun m hnm hcase => ?_⟩
    rcases asked_or_approaches (n := m) hbegun hnm with ⟨asked, hn, hm, hasked⟩ | happroaches
    · exact ⟨asked, hn, hm, hasked⟩
    · obtain ⟨hgranted, hdenied⟩ := not_answered_of_approaches (waitersWait_after hw) happroaches
      obtain ⟨flight, -, -, htwo, hmoves⟩ := happroaches
      rcases hcase with hthree | ⟨whitelist, hgrant⟩ | ⟨e, hdeny⟩
      · omega
      · exact absurd hgrant (hgranted whitelist)
      · exact absurd hdeny (hdenied e)

namespace Outage

open Overtaken SampleRole

def gone : Error := .io (.stated "disk gone")

/-- When the load has failed, the role is asked for again. -/
def recovering : List (Action MemoryStore Whitelist) :=
  joining gone ++ [.spawn 4 (.whitelistOf auditor), .advance 4, .proceed auditor, .proceed auditor,
    .proceed auditor]

end Outage

open Overtaken Outage SampleRole in
theorem failures_contained_outage :
    (∃ asked, LoadEnds Overtaken.world recovering auditor (.error gone) asked 11) ∧
      .denied 3 auditor (.store (.stated "I/O error: disk gone")) ∈
        Overtaken.world.eventsAt recovering 11 ∧
      ∃ asked, 13 < asked ∧ asked < 17 ∧
        .asked auditor ∈ Overtaken.world.eventsAt recovering asked := by
  have hcontained : FailuresContained Overtaken.world recovering :=
    failures_contained ⟨⟨true, rfl⟩, rfl⟩
  have hevents : Overtaken.world.eventsAt recovering 11 =
      [.landed auditor (.error gone), .denied 1 auditor gone.relayed,
        .denied 3 auditor gone.relayed] := by
    decide +kernel
  have hfirst : .denied 1 auditor gone.relayed ∈ Overtaken.world.eventsAt recovering 11 := by
    rw [hevents]
    simp
  obtain ⟨asked, error, hload, -, -, -, hsame⟩ := hcontained.denied 11 1 auditor _ hfirst
  have hlands := hload.lands
  rw [hevents] at hlands
  obtain rfl : error = gone := by simpa using hlands
  have hconsulted : .consulted 4 auditor ∈ Overtaken.world.eventsAt recovering 13 := by
    decide +kernel
  have hidle : (Overtaken.world.after recovering 13).cache.flight? auditor = none :=
    Option.isNone_iff_eq_none.1 (by decide +kernel)
  obtain ⟨-, hasks⟩ := hcontained.begins 13 4 auditor hconsulted (by decide +kernel) hidle
  refine ⟨⟨asked, hload⟩, hsame 3 .done rfl, hasks 17 (by decide) (Or.inl ?_)⟩
  decide +kernel

end AuditTrail.World
