import AuditTrail.Proofs.World.Effects

/-!
# The history of a run

A run is a list of actions, and `after` is the world when so many of them have been taken.
`eventsAt` tells what a step shows of requests, invalidations and loads, so that a property of runs
can speak of what happened and in which order.
-/

namespace AuditTrail

instance decidableEqExcept {ε α : Type} [DecidableEq ε] [DecidableEq α] :
    DecidableEq (Except ε α)
  | .ok a, .ok b => decidable_of_iff (a = b) (by simp)
  | .error d, .error e => decidable_of_iff (d = e) (by simp)
  | .ok _, .error _ => isFalse (by simp)
  | .error _, .ok _ => isFalse (by simp)

/-- What can happen to a request, to the generations or to a load. -/
inductive Event where
  /-- A request looks for an entry, at its beginning and whenever it begins again. -/
  | consulted (task : TaskId) (role : Role)
  /-- A request takes out an entry that is out of date. -/
  | dropped (task : TaskId) (role : Role)
  | granted (task : TaskId) (role : Role) (whitelist : Whitelist)
  | denied (task : TaskId) (role : Role) (error : Error)
  | bumped (scope : Scope)
  | discarded (scope : Scope)
  /-- The store is asked for a whitelist, and the load begins. -/
  | asked (role : Role)
  /-- The store answers from what it keeps at this moment. -/
  | answered (role : Role) (answer : Except Error Whitelist)
  /-- The load ends and all who wait for it are told. -/
  | landed (role : Role) (outcome : Except Error Whitelist)
deriving DecidableEq

namespace World

variable {σ ρ : Type} [WhitelistStore σ]

def denials (role : Role) (waiters : List TaskId) : Except Error Whitelist → List Event
  | .ok _ => []
  | .error e => waiters.map fun id => .denied id role e.relayed

def events (w : World σ ρ) : Action σ ρ → List Event
  | .advance id =>
    match w.task? id with
    | some ⟨.whitelist role _, .probing⟩ => [.consulted id role]
    | some ⟨.whitelist role _, .counted entry counter⟩ =>
      if entry.generation = ⟨w.cache.epoch, counter⟩ then [.granted id role entry.whitelist] else []
    | some ⟨.whitelist role _, .outdated _⟩ => [.dropped id role]
    | some ⟨.bump scope _, _⟩ => [.bumped scope]
    | some ⟨.discard scope _, _⟩ => [.discarded scope]
    | _ => []
  | .proceed role =>
    match w.cache.flight? role with
    | some ⟨.stamped _, _⟩ => [.asked role]
    | some ⟨.asked _, _⟩ => [.answered role (w.stored role)]
    | _ => []
  | .deliver role refusal =>
    match w.cache.flight? role with
    | some ⟨.answered _ answer, waiters⟩ =>
      let outcome := Cache.outcome answer refusal
      .landed role outcome :: denials role waiters outcome
    | _ => []
  | .spawn _ _ | .changeStore _ | .changeGraph _ => []

def after (w : World σ ρ) (actions : List (Action σ ρ)) (n : Nat) : World σ ρ :=
  w.run (actions.take n)

/-- What happens in the action numbered `n`, the first being number zero. -/
def eventsAt (w : World σ ρ) (actions : List (Action σ ρ)) (n : Nat) : List Event :=
  match actions[n]? with
  | some a => (w.after actions n).events a
  | none => []

/-- A cache that has not been used, and no task. -/
structure IsNew (w : World σ ρ) : Prop where
  cache : ∃ retains, w.cache = Cache.new retains
  tasks : w.tasks = ∅

/-- The task has consulted the cache for a request that has not been answered. -/
def MidRequest (w : World σ ρ) (id : TaskId) : Prop :=
  ∃ role next stage, w.task? id = some ⟨.whitelist role next, stage⟩ ∧ stage ≠ .probing

/-! ## Time -/

variable {w : World σ ρ} {actions : List (Action σ ρ)} {n : Nat}

@[simp] theorem after_zero (w : World σ ρ) (actions : List (Action σ ρ)) :
    w.after actions 0 = w := rfl

theorem after_succ {a : Action σ ρ} (h : actions[n]? = some a) :
    w.after actions (n + 1) = (w.after actions n).step a := by
  rw [after, List.take_add_one, h, run, List.foldl_append]
  rfl

theorem after_succ_of_none (h : actions[n]? = none) :
    w.after actions (n + 1) = w.after actions n := by
  rw [after, List.take_add_one, h, Option.toList_none, List.append_nil]
  rfl

theorem eventsAt_of_some {a : Action σ ρ} (h : actions[n]? = some a) :
    w.eventsAt actions n = (w.after actions n).events a := by
  rw [eventsAt, h]

theorem after_eq_run_drop {m : Nat} (h : m ≤ n) :
    w.after actions n = (w.after actions m).run ((actions.take n).drop m) := by
  have htake : actions.take m = (actions.take n).take m := by
    rw [List.take_take, Nat.min_eq_left h]
  rw [after, after, htake, run, run, run, ← List.foldl_append, List.take_append_drop]

theorem exists_action_of_mem {e : Event} (h : e ∈ w.eventsAt actions n) :
    ∃ a, actions[n]? = some a ∧ e ∈ (w.after actions n).events a := by
  cases ha : actions[n]? with
  | none =>
    rw [eventsAt, ha] at h
    cases h
  | some a =>
    rw [eventsAt_of_some ha] at h
    exact ⟨a, rfl, h⟩

theorem after_induction_from {P : Nat → World σ ρ → Prop} {m : Nat}
    (hbase : P m (w.after actions m))
    (hidle : ∀ n, m ≤ n → actions[n]? = none → P n (w.after actions n) →
      P (n + 1) (w.after actions n))
    (hstep : ∀ n a, m ≤ n → actions[n]? = some a → P n (w.after actions n) →
      P (n + 1) ((w.after actions n).step a)) (h : m ≤ n) : P n (w.after actions n) := by
  induction h with
  | refl => exact hbase
  | @step n h ih =>
    cases ha : actions[n]? with
    | none =>
      rw [after_succ_of_none ha]
      exact hidle n h ha ih
    | some a =>
      rw [after_succ ha]
      exact hstep n a h ha ih

/-- What holds of a task when it starts, and is kept by its moves and while it does not move, holds
of it at all later times. -/
theorem task_induction_from {P : Nat → Task ρ → Prop} {id : TaskId} {m : Nat}
    (hbase : ∀ t, (w.after actions m).task? id = some t → P m t)
    (hstart : ∀ k p, P k (Task.start p)) (hkeep : ∀ k t, P k t → P (k + 1) t)
    (hmoves : ∀ k a t t', m ≤ k → actions[k]? = some a → (w.after actions k).task? id = some t →
      (w.after actions k).Moves id a t t' → P k t → P (k + 1) t') (hmn : m ≤ n) :
    ∀ t, (w.after actions n).task? id = some t → P n t := by
  refine after_induction_from (P := fun k w' => ∀ t, w'.task? id = some t → P k t) hbase ?_ ?_ hmn
  · exact fun k _ _ ih t ht => hkeep k t (ih t ht)
  · intro k a hk ha ih t' ht'
    cases hbefore : (w.after actions k).task? id with
    | none =>
      rcases task?_step_of_none hbefore a with hnone | ⟨p, -, hp⟩
      · rw [hnone] at ht'
        cases ht'
      · rw [hp, Option.some.injEq] at ht'
        rw [← ht']
        exact hstart (k + 1) p
    | some t =>
      obtain ⟨s, hs, hcase⟩ := task?_step hbefore a
      rw [hs, Option.some.injEq] at ht'
      subst ht'
      rcases hcase with rfl | hmove
      · exact hkeep k s (ih s hbefore)
      · exact hmoves k a t s hk ha hbefore hmove (ih t hbefore)

theorem task?_succ_of_spawn {id : TaskId} {p : Procedure ρ} (h : actions[n]? = some (.spawn id p))
    (hunused : (w.after actions n).task? id = none) :
    (w.after actions (n + 1)).task? id = some (Task.start p) := by
  rw [after_succ h, step, if_neg, task?_resume, if_pos rfl]
  rw [Std.ExtTreeMap.contains_eq_isSome_getElem?]
  simpa [task?] using hunused

/-- A task goes back to the action that spawned it. -/
theorem spawned_of_task (hw : w.IsNew) {id : TaskId} {t : Task ρ}
    (h : (w.after actions n).task? id = some t) :
    ∃ m p, m < n ∧ actions[m]? = some (.spawn id p) ∧ (w.after actions m).task? id = none := by
  induction n generalizing t with
  | zero =>
    rw [after_zero, task?, hw.tasks] at h
    simp at h
  | succ n ih =>
    cases hbefore : (w.after actions n).task? id with
    | some s =>
      obtain ⟨m, p, hm, hspawn⟩ := ih hbefore
      exact ⟨m, p, Nat.lt_succ_of_lt hm, hspawn⟩
    | none =>
      cases ha : actions[n]? with
      | none =>
        rw [after_succ_of_none ha, hbefore] at h
        cases h
      | some a =>
        rw [after_succ ha] at h
        rcases task?_step_of_none hbefore a with hnone | ⟨p, rfl, -⟩
        · rw [hnone] at h
          cases h
        · exact ⟨n, p, Nat.lt_succ_self n, ha, hbefore⟩

theorem graph_after (h : ∀ a ∈ actions, ∀ graph, a ≠ .changeGraph graph) (n : Nat) :
    (w.after actions n).graph = w.graph := by
  induction n with
  | zero => rfl
  | succ n ih =>
    cases ha : actions[n]? with
    | none =>
      rw [after_succ_of_none ha]
      exact ih
    | some a =>
      rw [after_succ ha, graph_step _ (h a (List.mem_of_getElem? ha))]
      exact ih

/-! ## What events say of the world -/

/-- When an action shows an event. -/
inductive Shows (w : World σ ρ) : Action σ ρ → Event → Prop
  | consulted {id role next} (h : w.task? id = some ⟨.whitelist role next, .probing⟩) :
    Shows w (.advance id) (.consulted id role)
  | granted {id role next entry counter}
    (h : w.task? id = some ⟨.whitelist role next, .counted entry counter⟩)
    (hgen : entry.generation = ⟨w.cache.epoch, counter⟩) :
    Shows w (.advance id) (.granted id role entry.whitelist)
  | dropped {id role next entry} (h : w.task? id = some ⟨.whitelist role next, .outdated entry⟩) :
    Shows w (.advance id) (.dropped id role)
  | bumped {id scope next stage} (h : w.task? id = some ⟨.bump scope next, stage⟩) :
    Shows w (.advance id) (.bumped scope)
  | discarded {id scope next stage} (h : w.task? id = some ⟨.discard scope next, stage⟩) :
    Shows w (.advance id) (.discarded scope)
  | asked {role generation waiters}
    (h : w.cache.flight? role = some ⟨.stamped generation, waiters⟩) :
    Shows w (.proceed role) (.asked role)
  | answered {role generation waiters}
    (h : w.cache.flight? role = some ⟨.asked generation, waiters⟩) :
    Shows w (.proceed role) (.answered role (w.stored role))
  | landed {role refusal generation answer waiters}
    (h : w.cache.flight? role = some ⟨.answered generation answer, waiters⟩) :
    Shows w (.deliver role refusal) (.landed role (Cache.outcome answer refusal))
  | denied {role refusal generation answer waiters id e}
    (h : w.cache.flight? role = some ⟨.answered generation answer, waiters⟩)
    (hout : Cache.outcome answer refusal = .error e) (hid : id ∈ waiters) :
    Shows w (.deliver role refusal) (.denied id role e.relayed)

theorem shows_of_mem_events {a : Action σ ρ} {e : Event} (h : e ∈ w.events a) : w.Shows a e := by
  cases a with
  | spawn id p => cases h
  | changeStore store => cases h
  | changeGraph graph => cases h
  | advance id =>
    simp only [events] at h
    split at h
    · rename_i role next htask
      rw [List.mem_singleton] at h
      subst h
      exact .consulted htask
    · rename_i role next entry counter htask
      split at h
      · rename_i hgen
        rw [List.mem_singleton] at h
        subst h
        exact .granted htask hgen
      · cases h
    · rename_i role next entry htask
      rw [List.mem_singleton] at h
      subst h
      exact .dropped htask
    · rename_i scope next stage htask
      rw [List.mem_singleton] at h
      subst h
      exact .bumped htask
    · rename_i scope next stage htask
      rw [List.mem_singleton] at h
      subst h
      exact .discarded htask
    · cases h
  | proceed role =>
    simp only [events] at h
    split at h
    · rename_i generation waiters hflight
      rw [List.mem_singleton] at h
      subst h
      exact .asked hflight
    · rename_i generation waiters hflight
      rw [List.mem_singleton] at h
      subst h
      exact .answered hflight
    · cases h
  | deliver role refusal =>
    simp only [events] at h
    split at h
    · rename_i generation answer waiters hflight
      rcases List.mem_cons.1 h with rfl | h
      · exact .landed hflight
      · cases hout : Cache.outcome answer refusal with
        | ok whitelist =>
          rw [hout] at h
          cases h
        | error error =>
          rw [hout] at h
          obtain ⟨id, hid, rfl⟩ := List.mem_map.1 h
          exact .denied hflight hout hid
    · cases h

theorem mem_events_of_shows {a : Action σ ρ} {e : Event} (h : w.Shows a e) : e ∈ w.events a := by
  cases h with
  | consulted h => simp [events, h]
  | granted h hgen => simp [events, h, hgen]
  | dropped h => simp [events, h]
  | bumped h => simp [events, h]
  | discarded h => simp [events, h]
  | asked h => simp [events, h]
  | answered h => simp [events, h]
  | landed h => simp [events, h]
  | denied h hout hid =>
    simp only [events, h, hout, denials, List.mem_cons, List.mem_map]
    exact Or.inr ⟨_, hid, rfl⟩

theorem mem_events_iff {a : Action σ ρ} {e : Event} : e ∈ w.events a ↔ w.Shows a e :=
  ⟨shows_of_mem_events, mem_events_of_shows⟩

/-- What happens in a step, as a condition on the world before it. -/
theorem mem_eventsAt_iff {e : Event} :
    e ∈ w.eventsAt actions n ↔ ∃ a, actions[n]? = some a ∧ (w.after actions n).Shows a e := by
  constructor
  · intro h
    obtain ⟨a, ha, hmem⟩ := exists_action_of_mem h
    exact ⟨a, ha, shows_of_mem_events hmem⟩
  · rintro ⟨a, ha, hshows⟩
    rw [eventsAt_of_some ha]
    exact mem_events_of_shows hshows

theorem stored_of_answered {role : Role} {answer : Except Error Whitelist}
    (h : .answered role answer ∈ w.eventsAt actions n) :
    (w.after actions n).stored role = answer := by
  obtain ⟨a, -, hshows⟩ := mem_eventsAt_iff.1 h
  cases hshows with
  | answered hflight => rfl

/-! ## Generations over time -/

theorem generation_mono (w : World σ ρ) (actions : List (Action σ ρ)) {m : Nat} (role : Role)
    (h : m ≤ n) :
    (w.after actions m).cache.counter role ≤ (w.after actions n).cache.counter role ∧
      (w.after actions m).cache.epoch ≤ (w.after actions n).cache.epoch := by
  induction h with
  | refl => exact ⟨Nat.le_refl _, Nat.le_refl _⟩
  | @step n h ih =>
    cases ha : actions[n]? with
    | none =>
      rw [after_succ_of_none ha]
      exact ih
    | some a =>
      rw [after_succ ha]
      have hstep := generation_step (w.after actions n) a role
      exact ⟨Nat.le_trans ih.1 hstep.1, Nat.le_trans ih.2 hstep.2⟩

theorem cache_after_bumped {scope : Scope} (h : .bumped scope ∈ w.eventsAt actions n) :
    (w.after actions (n + 1)).cache = (w.after actions n).cache.bump scope := by
  obtain ⟨a, ha, hshows⟩ := mem_eventsAt_iff.1 h
  cases hshows with
  | bumped htask =>
    rw [after_succ ha]
    exact cache_advance_of_bump htask

end World
end AuditTrail
