import AuditTrail.Proofs.World.Calm
import AuditTrail.Proofs.World.Denial

/-!
# Calm runs come to an end

In a calm run one action is due for each task: its own step, or a step of the load that it waits
for.  Until that action comes nothing changes for the task (`ahead_of_not_due`), and when it comes
the task gets ahead (`ahead_of_due`).  So a procedure with so many questions at most is over when
the actions have come round often enough, whatever else happens in between (`result?_of_rounds`).
-/

namespace AuditTrail

/-- The order of the stages of a request. -/
inductive RequestStage.Precedes : RequestStage → RequestStage → Prop
  | found {entry : Cache.Entry} : Precedes .probing (.holding entry)
  | joined : Precedes .probing .waiting
  | received {entry : Cache.Entry} : Precedes .waiting (.holding entry)
  | counted {entry : Cache.Entry} {counter : Nat} :
    Precedes (.holding entry) (.counted entry counter)
  | refuted {entry : Cache.Entry} {counter : Nat} :
    Precedes (.counted entry counter) (.outdated entry)
  | retried {entry : Cache.Entry} : Precedes (.outdated entry) .probing

open Procedure (Answers)

namespace World

variable {σ ρ : Type}

/-- The steps before the load of the role until the store has answered. -/
def loadLeft (w : World σ ρ) (role : Role) : Nat :=
  match w.cache.flight? role with
  | some flight => flight.stage.left
  | none => 0

/-- The next step of that load. -/
def loadStep (w : World σ ρ) (role : Role) : Action σ ρ :=
  if w.loadLeft role = 0 then .deliver role none else .proceed role

/-- An upper bound for the steps that the question of a task still takes. -/
def stepsLeft (w : World σ ρ) : Task ρ → Nat
  | ⟨.whitelist role _, .waiting⟩ => w.loadLeft role + 3
  | ⟨.whitelist _ _, .holding _⟩ => 2
  | ⟨.whitelist _ _, .counted _ _⟩ => 1
  | _ => 8

/-- The action that brings a task ahead. -/
def due (w : World σ ρ) (id : TaskId) : Task ρ → Action σ ρ
  | ⟨.whitelist role _, .waiting⟩ => w.loadStep role
  | _ => .advance id

/-- The actions that can be due for a task that asks for the whitelists of these roles. -/
inductive Action.Serves (id : TaskId) (roles : List Role) : Action σ ρ → Prop
  | own : Serves id roles (.advance id)
  | load {role : Role} (h : role ∈ roles) : Serves id roles (.proceed role)
  | landing {role : Role} (h : role ∈ roles) : Serves id roles (.deliver role none)

/-- From one time to another, all actions of a kind come so many times in turn. -/
inductive Rounds (actions : List (Action σ ρ)) (kind : Action σ ρ → Prop) : Nat → Nat → Nat → Prop
  | zero {m n : Nat} (h : m ≤ n) : Rounds actions kind 0 m n
  | succ {count m l n : Nat}
    (h : ∀ a, kind a → ∃ k, m ≤ k ∧ k < l ∧ actions[k]? = some a)
    (hrest : Rounds actions kind count l n) : Rounds actions kind (count + 1) m n

/-- The task is over, or it has at most so many steps before it. -/
def Ahead (A : Answers) (roles : List Role) (w : World σ ρ) (id : TaskId) (steps : Nat) : Prop :=
  ∃ t, w.task? id = some t ∧ (t.procedure.isOver = true ∨
    ∃ n, t.procedure.Within A roles (n + 1) ∧ w.stepsLeft t + 8 * n ≤ steps)

theorem Rounds.le {actions : List (Action σ ρ)} {kind : Action σ ρ → Prop} {count m n : Nat}
    {a : Action σ ρ} (h : Rounds actions kind count m n) (ha : kind a) : m ≤ n := by
  induction h with
  | zero h => exact h
  | succ h _ ih =>
    obtain ⟨k, hmk, hkl, -⟩ := h a ha
    omega

theorem Rounds.of_le {actions : List (Action σ ρ)} {kind : Action σ ρ → Prop} {count l m n : Nat}
    (h : Rounds actions kind count m n) (hlm : l ≤ m) : Rounds actions kind count l n := by
  cases h with
  | zero h => exact .zero (Nat.le_trans hlm h)
  | succ h hrest =>
    refine .succ (fun a ha => ?_) hrest
    obtain ⟨k, hmk, hrest⟩ := h a ha
    exact ⟨k, Nat.le_trans hlm hmk, hrest⟩

/-- The same actions again and again are rounds. -/
theorem rounds_of_replicate {round : List (Action σ ρ)} {kind : Action σ ρ → Prop}
    (hround : ∀ a, kind a → a ∈ round) (before later : List (Action σ ρ)) (count : Nat) :
    Rounds (before ++ (List.replicate count round).flatten ++ later) kind count before.length
      (before.length + count * round.length) := by
  induction count generalizing before with
  | zero => exact .zero (Nat.le_add_right _ _)
  | succ count ih =>
    have hnext := ih (before ++ round)
    rw [List.length_append, List.append_assoc before] at hnext
    rw [List.replicate_succ, List.flatten_cons, Nat.succ_mul]
    refine .succ (l := before.length + round.length) (fun a ha => ?_) ?_
    · obtain ⟨k, hk, hget⟩ := List.mem_iff_getElem.1 (hround a ha)
      refine ⟨before.length + k, Nat.le_add_right _ _, Nat.add_lt_add_left hk _, ?_⟩
      simp [List.getElem?_append, hk, hget]
    · rw [Nat.add_comm (count * round.length), ← Nat.add_assoc]
      exact hnext

/-! ## Steps left and steps due -/

section Measure

variable {A : Answers} {roles : List Role} {w v : World σ ρ} {id : TaskId} {t : Task ρ}
  {count : Nat}

theorem loadLeft_le (w : World σ ρ) (role : Role) : w.loadLeft role ≤ 4 := by
  unfold loadLeft
  split
  · rename_i flight hflight
    cases flight.stage <;> simp [Cache.LoadStage.left]
  · exact Nat.zero_le 4

theorem isOver_of_within {p : Procedure ρ} (h : p.Within A roles 0) :
    p.isOver = true := by
  cases p with
  | done value => rfl
  | failed e => rfl
  | _ => exact h.elim

theorem stepsLeft_of_probing (h : t.stage = .probing) : v.stepsLeft t = 8 := by
  obtain ⟨procedure, stage⟩ := t
  subst h
  cases procedure <;> rfl

theorem stepsLeft_pos (v : World σ ρ) (t : Task ρ) : 0 < v.stepsLeft t := by
  unfold stepsLeft
  split <;> omega

theorem ahead_of_probing (ht : v.task? id = some t) (hstage : t.stage = .probing)
    (h : t.procedure.Within A roles count) : Ahead A roles v id (8 * count) := by
  refine ⟨t, ht, ?_⟩
  cases count with
  | zero => exact Or.inl (isOver_of_within h)
  | succ n =>
    refine Or.inr ⟨n, h, ?_⟩
    rw [stepsLeft_of_probing hstage]
    omega

theorem Ahead.mono {steps steps' : Nat} (h : Ahead A roles v id steps)
    (hle : steps ≤ steps') : Ahead A roles v id steps' := by
  obtain ⟨t, ht, hover | ⟨n, hwithin, hsteps⟩⟩ := h
  · exact ⟨t, ht, Or.inl hover⟩
  · exact ⟨t, ht, Or.inr ⟨n, hwithin, Nat.le_trans hsteps hle⟩⟩

theorem due_serves (h : t.procedure.Within A roles count)
    (hopen : t.procedure.isOver = false) : (v.due id t).Serves id roles := by
  unfold due
  split
  · rename_i role next
    cases count with
    | zero => exact h.elim
    | succ n =>
      unfold loadStep
      split
      · exact .landing h.1
      · exact .load h.1
  · exact .own

theorem stepsLeft_and_due_congr
    (h : ∀ role next, t = ⟨.whitelist role next, .waiting⟩ → v.loadLeft role = w.loadLeft role) :
    v.stepsLeft t = w.stepsLeft t ∧ v.due id t = w.due id t := by
  obtain ⟨procedure, stage⟩ := t
  cases procedure with
  | whitelist role next =>
    cases stage with
    | waiting =>
      have hleft := h role next rfl
      simp only [stepsLeft, due, loadStep, hleft, and_self]
    | _ => exact ⟨rfl, rfl⟩
  | _ => exact ⟨rfl, rfl⟩

end Measure

variable [WhitelistStore σ]

/-- The answers that a world gives as long as it stays as it is. -/
def steadyAnswers (w : World σ ρ) : Answers where
  closure user answer := answer = w.rolesOf user
  sorted l m := m.Perm l
  whitelist role answer := answer = w.stored role

/-! ## Questions -/

section Questions

variable {A : Answers} {roles : List Role} {w : World σ ρ} {id : TaskId} {a : Action σ ρ}
  {t t' : Task ρ} {count : Nat}

/-- A task that moves is still at its question, or it begins what comes after it. -/
theorem within_of_moves (hwait : WaitersWait w) (htask : w.task? id = some t)
    (hmoves : w.Moves id a t t') (ha : Answering A w id a)
    (h : t.procedure.Within A roles count) :
    (∃ role next stage stage', t = ⟨.whitelist role next, stage⟩ ∧
        t' = ⟨.whitelist role next, stage'⟩ ∧ stage.Precedes stage') ∨
      ∃ n, count = n + 1 ∧ t'.stage = .probing ∧ t'.procedure.Within A roles n := by
  cases count with
  | zero =>
    cases hmoves with
    | @received role refusal generation answer waiters _ hflight hid =>
      obtain ⟨next, rfl⟩ := hwait.eq_waiting htask hflight hid
      exact h.elim
    | _ => exact h.elim
  | succ n =>
    cases hmoves with
    | @toldRoles user next stage l hroles =>
      refine Or.inr ⟨n, rfl, rfl, h l ?_⟩
      rw [← hroles]
      exact ha.closure user
    | refusedRoles herror => exact Or.inr ⟨n, rfl, rfl, trivial⟩
    | sorted => exact Or.inr ⟨n, rfl, rfl, h _ (ha.sorted _)⟩
    | found hentry => exact Or.inl ⟨_, _, _, _, rfl, rfl, .found⟩
    | joined habsent => exact Or.inl ⟨_, _, _, _, rfl, rfl, .joined⟩
    | counted => exact Or.inl ⟨_, _, _, _, rfl, rfl, .counted⟩
    | granted hgen =>
      exact Or.inr ⟨n, rfl, rfl, h.2 _ (ha.granted _ _ (mem_events_iff.2 (.granted htask hgen)))⟩
    | refuted hgen => exact Or.inl ⟨_, _, _, _, rfl, rfl, .refuted⟩
    | retried => exact Or.inl ⟨_, _, _, _, rfl, rfl, .retried⟩
    | prepared hdone => exact Or.inr ⟨n, rfl, rfl, h⟩
    | unprepared herror => exact Or.inr ⟨n, rfl, rfl, trivial⟩
    | appended hsink => exact Or.inr ⟨n, rfl, rfl, h⟩
    | unappended herror => exact Or.inr ⟨n, rfl, rfl, trivial⟩
    | bumped => exact Or.inr ⟨n, rfl, rfl, h⟩
    | discarded => exact Or.inr ⟨n, rfl, rfl, h⟩
    | @received role refusal generation answer waiters _ hflight hid =>
      obtain ⟨next, rfl⟩ := hwait.eq_waiting htask hflight hid
      cases hout : Cache.outcome answer refusal with
      | ok whitelist => exact Or.inl ⟨_, _, _, _, rfl, rfl, .received⟩
      | error e => exact Or.inr ⟨n, rfl, rfl, trivial⟩

end Questions

/-! ## One step -/

section Step

variable {w v : World σ ρ} {id : TaskId} {role : Role} {a : Action σ ρ} {t : Task ρ}

/-- A load in flight stays where it is until its next step comes. -/
theorem loadLeft_step_of_ne {flight : Cache.Flight} (hflight : w.cache.flight? role = some flight)
    (ha : a.Calm) (hnot : a ≠ w.loadStep role) : (w.step a).loadLeft role = w.loadLeft role := by
  have hleft : w.loadLeft role = flight.stage.left := by rw [loadLeft, hflight]
  rcases flight?_step_of_some hflight a with ⟨flight', hflight', -, hleft'⟩ | ⟨outcome, hlanded⟩
  · have hleft'' : (w.step a).loadLeft role = flight'.stage.left := by rw [loadLeft, hflight']
    cases hcarries : a.carries role with
    | false => rw [hleft'', hleft', hcarries, hleft, if_neg Bool.false_ne_true, Nat.sub_zero]
    | true =>
      rw [eq_proceed_of_carries hcarries, loadStep] at hnot
      split at hnot
      · omega
      · exact absurd rfl hnot
  · cases shows_of_mem_events hlanded with
    | landed hf =>
      rw [hf, Option.some.injEq] at hflight
      rw [loadStep, hleft, ← hflight] at hnot
      cases ha with
      | deliver => exact absurd rfl hnot

/-- A task stays where it is until the action that is due comes. -/
theorem task?_step_of_ne_due (hwait : WaitersWait w) (htask : w.task? id = some t) (ha : a.Calm)
    (hnot : a ≠ w.due id t) : (w.step a).task? id = some t := by
  obtain ⟨t', ht', rfl | hmoves⟩ := task?_step htask a
  · exact ht'
  · cases hmoves with
    | @received role refusal generation answer waiters _ hflight hid =>
      obtain ⟨next, rfl⟩ := hwait.eq_waiting htask hflight hid
      cases ha with
      | deliver =>
        refine absurd ?_ hnot
        rw [due, loadStep, loadLeft, hflight]
        rfl
    | _ => exact absurd rfl hnot

end Step

/-! ## Answers over time -/

section Run

variable {A : Answers} {w : World σ ρ} {actions : List (Action σ ρ)} {id : TaskId} {m n : Nat}
  {roles : List Role} {count : Nat} {t : Task ρ}

theorem within_after (hw : w.IsNew) (ht : (w.after actions m).task? id = some t)
    (h : t.procedure.Within A roles count) (hmn : m ≤ n)
    (hA : ∀ k a, m ≤ k → k < n → actions[k]? = some a → Answering A (w.after actions k) id a) :
    ∃ t' left, (w.after actions n).task? id = some t' ∧ t'.procedure.Within A roles left := by
  refine after_induction_from (P := fun k v => k ≤ n →
    ∃ t' left, v.task? id = some t' ∧ t'.procedure.Within A roles left) ?_ ?_ ?_ hmn (Nat.le_refl n)
  · exact fun _ => ⟨t, count, ht, h⟩
  · exact fun k _ _ ih hk => ih (Nat.le_of_succ_le hk)
  · intro k a hmk ha ih hk
    obtain ⟨s, left, hs, hwithin⟩ := ih (Nat.le_of_succ_le hk)
    obtain ⟨s', hs', rfl | hmoves⟩ := task?_step hs a
    · exact ⟨s', left, hs', hwithin⟩
    · rcases within_of_moves (waitersWait_after hw) hs hmoves (hA k a hmk hk ha) hwithin with
        ⟨role, next, stage, stage', rfl, rfl, -⟩ | ⟨rest, -, -, hrest⟩
      · exact ⟨_, left, hs', hwithin⟩
      · exact ⟨s', rest, hs', hrest⟩

theorem over_after (hw : w.IsNew) (ht : (w.after actions m).task? id = some t)
    (hover : t.procedure.isOver = true) (hmn : m ≤ n) : (w.after actions n).task? id = some t := by
  refine after_induction_from (P := fun _ v => v.task? id = some t) ht (fun _ _ _ ih => ih) ?_ hmn
  intro k a _ _ ih
  obtain ⟨t', ht', rfl | hmoves⟩ := task?_step ih a
  · exact ht'
  · cases hmoves with
    | @received role refusal generation answer waiters _ hflight hid =>
      obtain ⟨next, rfl⟩ := (waitersWait_after hw).eq_waiting ih hflight hid
      cases hover
    | _ => cases hover

/-- Until the action that is due comes, nothing changes for the task. -/
theorem ahead_of_not_due (hw : w.IsNew) (hcalm : ∀ a ∈ actions, a.Calm)
    (ht : (w.after actions n).task? id = some t)
    (hnot : actions[n]? ≠ some ((w.after actions n).due id t)) :
    (w.after actions (n + 1)).task? id = some t ∧
      (w.after actions (n + 1)).stepsLeft t = (w.after actions n).stepsLeft t ∧
      (w.after actions (n + 1)).due id t = (w.after actions n).due id t := by
  cases ha : actions[n]? with
  | none =>
    rw [after_succ_of_none ha]
    exact ⟨ht, rfl, rfl⟩
  | some a =>
    have hne : a ≠ (w.after actions n).due id t := fun heq => hnot (by rw [ha, heq])
    have hstep := hcalm a (List.mem_of_getElem? ha)
    rw [after_succ ha]
    refine ⟨task?_step_of_ne_due (waitersWait_after hw) ht hstep hne,
      stepsLeft_and_due_congr fun role next hwaiting => ?_⟩
    subst hwaiting
    obtain ⟨flight, hflight, -⟩ := waitingListed_after hw id role next ht
    exact loadLeft_step_of_ne hflight hstep hne

variable [KeepsAnswers σ]

/-- The answers in a calm run are those of the world in which it began. -/
theorem answering_of_calm (hw : w.IsNew) (hcalm : ∀ a ∈ actions, a.Calm) {a : Action σ ρ}
    (ha : actions[n]? = some a) (hloads : LoadsSucceed w (w.after actions n)) :
    Answering w.steadyAnswers (w.after actions n) id a := by
  have hstill := (undisturbed_after (n := n) hw hcalm).1
  refine ⟨fun user => hstill.rolesOf user, fun l => residentFirst_perm _ l, ?_, ?_⟩
  · intro role whitelist hgranted
    cases shows_of_mem_events hgranted with
    | granted htask hgen =>
      exact ((sourced_of_held hw id role _ _ _ htask rfl).upToDate hw hcalm).2.symm
  · intro role e hdenied
    cases shows_of_mem_events hdenied with
    | denied hflight hout hid =>
      cases hcalm _ (List.mem_of_getElem? ha) with
      | deliver =>
        obtain ⟨whitelist, hstored⟩ := hloads role _ hflight
        rw [hstill.answered role _ _ _ hflight, hstored] at hout
        cases hout

/-- If all that the tasks ask for is in the store, then so is what the loads in flight ask for. -/
theorem loadsSucceed_after (hw : w.IsNew) (hcalm : ∀ a ∈ actions, a.Calm)
    (hserved : ∀ id p, .spawn id p ∈ actions → ∃ roles count,
      p.Within w.steadyAnswers roles count ∧ ∀ x ∈ roles, ∃ whitelist, w.stored x = .ok whitelist)
    (n : Nat) : LoadsSucceed w (w.after actions n) := by
  -- the answers up to `n` are steady by what is known of earlier loads, so whoever waits for a load
  -- at `n` is at one of the questions with which it has started
  induction n using Nat.strongRecOn with
  | ind n ih =>
    intro role flight hflight
    obtain ⟨id, next, htask⟩ := waiting_of_flight? hw hflight
    obtain ⟨m, p, hm, hspawn, hunused⟩ := spawned_of_task hw htask
    obtain ⟨roles, count, hwithin, hstored⟩ := hserved id p (List.mem_of_getElem? hspawn)
    obtain ⟨t, left, ht, hleft⟩ := within_after hw (task?_succ_of_spawn hspawn hunused) hwithin hm
      fun k a _ hk ha => answering_of_calm hw hcalm ha (ih k hk)
    rw [htask, Option.some.injEq] at ht
    subst ht
    cases left with
    | zero => exact hleft.elim
    | succ left => exact hstored role hleft.1

/-! ## Getting ahead -/

/-- The next step of a load brings those ahead who wait for it. -/
theorem ahead_of_loadStep (hw : w.IsNew) (hcalm : ∀ a ∈ actions, a.Calm)
    (hloads : LoadsSucceed w (w.after actions n)) {role : Role} {next : Whitelist → Procedure ρ}
    (ht : (w.after actions n).task? id = some ⟨.whitelist role next, .waiting⟩)
    (ha : actions[n]? = some ((w.after actions n).loadStep role)) :
    ∃ stage, (w.after actions (n + 1)).task? id = some ⟨.whitelist role next, stage⟩ ∧
      (w.after actions (n + 1)).stepsLeft ⟨.whitelist role next, stage⟩ <
        (w.after actions n).stepsLeft ⟨.whitelist role next, .waiting⟩ := by
  obtain ⟨⟨stage, waiters⟩, hflight, hid⟩ := waitingListed_after hw id role next ht
  have hleft : (w.after actions n).loadLeft role = stage.left := by rw [loadLeft, hflight]
  rw [after_succ ha, loadStep, hleft]
  rcases Nat.eq_zero_or_pos stage.left with hzero | hpos
  · rw [if_pos hzero, step]
    cases stage with
    | answered generation answer =>
      obtain ⟨whitelist, hstored⟩ := hloads role _ hflight
      have hanswer := (undisturbed_after hw hcalm).1.answered role _ _ _ hflight
      refine ⟨.holding ⟨generation, whitelist⟩, ?_, ?_⟩
      · rw [task?_deliver hflight, ht, Option.map_some, if_pos hid, hanswer, hstored]
        rfl
      · exact Nat.lt_of_lt_of_le (Nat.lt_succ_self 2) (Nat.le_add_left 3 _)
    | _ => cases hzero
  · rw [if_neg (by omega), step]
    refine ⟨.waiting, by rw [task?_proceed, ht], ?_⟩
    obtain ⟨stage', hflight', hmoves | ⟨rfl, generation, answer, rfl⟩⟩ := flight?_proceed hflight
    · have hless := left_lt_of_loadMoves hmoves
      have hleft' : ((w.after actions n).proceed role).loadLeft role = stage'.left := by
        rw [loadLeft, hflight']
      rw [stepsLeft, stepsLeft, hleft, hleft']
      omega
    · cases hpos

/-- When the action that is due comes, the task gets ahead in its question or ends it. -/
theorem ahead_of_due (hw : w.IsNew) (hcalm : ∀ a ∈ actions, a.Calm)
    (hloads : LoadsSucceed w (w.after actions n)) (ht : (w.after actions n).task? id = some t)
    (hopen : t.procedure.isOver = false)
    (hwithin : t.procedure.Within w.steadyAnswers roles (count + 1))
    (ha : actions[n]? = some ((w.after actions n).due id t)) :
    ∃ t', (w.after actions (n + 1)).task? id = some t' ∧
      (t'.procedure = t.procedure ∧
          (w.after actions (n + 1)).stepsLeft t' < (w.after actions n).stepsLeft t ∨
        t'.stage = .probing ∧ t'.procedure.Within w.steadyAnswers roles count) := by
  by_cases hwaiting : ∃ role next, t = ⟨.whitelist role next, .waiting⟩
  · obtain ⟨role, next, rfl⟩ := hwaiting
    obtain ⟨stage, hstage, hless⟩ := ahead_of_loadStep hw hcalm hloads ht ha
    exact ⟨_, hstage, Or.inl ⟨rfl, hless⟩⟩
  · have hdue : (w.after actions n).due id t = .advance id := by
      unfold due
      split
      · exact absurd ⟨_, _, rfl⟩ hwaiting
      · rfl
    rw [hdue] at ha
    obtain ⟨t', ht', ⟨-, hover | hwaits⟩ | hmoves⟩ := task?_advance ht
    · rw [hover] at hopen
      cases hopen
    · exact absurd hwaits hwaiting
    · have hafter : (w.after actions (n + 1)).task? id = some t' := by
        rw [after_succ ha]
        exact ht'
      refine ⟨t', hafter, ?_⟩
      rcases within_of_moves (waitersWait_after hw) ht hmoves
        (answering_of_calm hw hcalm ha hloads) hwithin with
        ⟨role, next, stage, stage', rfl, rfl, hprecedes⟩ | ⟨rest, hcount, hstage, hrest⟩
      · refine Or.inl ⟨rfl, ?_⟩
        cases hprecedes with
        | found =>
          show 2 < 8
          omega
        | joined =>
          have hfour := loadLeft_le (w.after actions (n + 1)) role
          show (w.after actions (n + 1)).loadLeft role + 3 < 8
          omega
        | received => exact absurd ⟨role, next, rfl⟩ hwaiting
        | counted => exact Nat.lt_succ_self 1
        | refuted => exact absurd hafter (not_outdated hw hcalm)
        | retried => exact absurd ht (not_outdated hw hcalm)
      · rw [Nat.add_right_cancel hcount]
        exact Or.inr ⟨hstage, hrest⟩

/-! ## Rounds -/

theorem ahead_succ_of_due (hw : w.IsNew) (hcalm : ∀ a ∈ actions, a.Calm)
    (hloads : LoadsSucceed w (w.after actions n)) (ht : (w.after actions n).task? id = some t)
    (hopen : t.procedure.isOver = false)
    (hwithin : t.procedure.Within w.steadyAnswers roles (count + 1))
    (ha : actions[n]? = some ((w.after actions n).due id t)) :
    Ahead w.steadyAnswers roles (w.after actions (n + 1)) id
      ((w.after actions n).stepsLeft t + 8 * count - 1) := by
  obtain ⟨t', ht', ⟨hsame, hless⟩ | ⟨hstage, hrest⟩⟩ :=
    ahead_of_due hw hcalm hloads ht hopen hwithin ha
  · refine ⟨t', ht', Or.inr ⟨count, by rw [hsame]; exact hwithin, ?_⟩⟩
    omega
  · have hpos := stepsLeft_pos (w.after actions n) t
    exact (ahead_of_probing ht' hstage hrest).mono (by omega)

theorem ahead_succ (hw : w.IsNew) (hcalm : ∀ a ∈ actions, a.Calm)
    (hloads : LoadsSucceed w (w.after actions n)) {steps : Nat}
    (h : Ahead w.steadyAnswers roles (w.after actions n) id steps) :
    Ahead w.steadyAnswers roles (w.after actions (n + 1)) id steps := by
  obtain ⟨t, ht, hcase⟩ := h
  cases hopen : t.procedure.isOver with
  | true => exact ⟨t, over_after hw ht hopen (Nat.le_succ n), Or.inl hopen⟩
  | false =>
    rw [hopen] at hcase
    obtain ⟨count, hwithin, hsteps⟩ := hcase.resolve_left Bool.false_ne_true
    by_cases hdue : actions[n]? = some ((w.after actions n).due id t)
    · exact (ahead_succ_of_due hw hcalm hloads ht hopen hwithin hdue).mono (by omega)
    · obtain ⟨ht', hsame, -⟩ := ahead_of_not_due hw hcalm ht hdue
      exact ⟨t, ht', Or.inr ⟨count, hwithin, by omega⟩⟩

variable (hw : w.IsNew) (hcalm : ∀ a ∈ actions, a.Calm)
  (hloads : ∀ n, LoadsSucceed w (w.after actions n))

include hw hcalm hloads

theorem ahead_of_le {steps : Nat} (h : Ahead w.steadyAnswers roles (w.after actions m) id steps)
    (hmn : m ≤ n) : Ahead w.steadyAnswers roles (w.after actions n) id steps := by
  induction hmn with
  | refl => exact h
  | step _ ih => exact ahead_succ hw hcalm (hloads _) ih

/-- One round brings the task a step ahead. -/
theorem ahead_of_round {steps : Nat}
    (h : Ahead w.steadyAnswers roles (w.after actions m) id steps)
    (hround : ∀ a : Action σ ρ, a.Serves id roles → ∃ k, m ≤ k ∧ k < n ∧ actions[k]? = some a)
    (hmn : m ≤ n) : Ahead w.steadyAnswers roles (w.after actions n) id (steps - 1) := by
  obtain ⟨t, ht, hover | ⟨count, hwithin, hsteps⟩⟩ := h
  · exact ⟨t, over_after hw ht hover hmn, Or.inl hover⟩
  · cases hopen : t.procedure.isOver with
    | true => exact ⟨t, over_after hw ht hopen hmn, Or.inl hopen⟩
    | false =>
      obtain ⟨k, hmk, hkn, hk⟩ := hround _ (due_serves (v := w.after actions m) hwithin hopen)
      obtain ⟨d, rfl⟩ := Nat.exists_eq_add_of_le hmk
      clear hround hmk
      -- on how far away the action is that is due now: it stays the same until it comes
      induction d generalizing m with
      | zero =>
        have hnext := ahead_succ_of_due hw hcalm (hloads m) ht hopen hwithin hk
        exact (ahead_of_le hw hcalm hloads hnext hkn).mono (by omega)
      | succ d ih =>
        by_cases hdue : actions[m]? = some ((w.after actions m).due id t)
        · have hnext := ahead_succ_of_due hw hcalm (hloads m) ht hopen hwithin hdue
          exact (ahead_of_le hw hcalm hloads hnext (by omega)).mono (by omega)
        · obtain ⟨ht', hsame, hdue'⟩ := ahead_of_not_due hw hcalm ht hdue
          refine ih (by omega) ht' (by omega) (by omega) ?_
          rw [hdue', Nat.add_right_comm]
          exact hk

theorem ahead_of_rounds {rounds steps : Nat}
    (hrounds : Rounds actions (Action.Serves id roles) rounds m n)
    (h : Ahead w.steadyAnswers roles (w.after actions m) id steps) :
    Ahead w.steadyAnswers roles (w.after actions n) id (steps - rounds) := by
  induction hrounds generalizing steps with
  | zero hmn => exact ahead_of_le hw hcalm hloads h hmn
  | @succ rounds m l n hround hrest ih =>
    obtain ⟨k, hmk, hkl, -⟩ := hround _ .own
    have hnext := ahead_of_round hw hcalm hloads h hround (by omega)
    exact (ih hnext).mono (by omega)

/-- A task is over after eight rounds for each of its questions. -/
theorem result?_of_rounds (ht : (w.after actions m).task? id = some t)
    (hstage : t.stage = .probing) (hwithin : t.procedure.Within w.steadyAnswers roles count)
    (hrounds : Rounds actions (Action.Serves id roles) (8 * count) m n) :
    ∃ result, (w.after actions n).result? id = some result := by
  have hahead := ahead_of_rounds hw hcalm hloads hrounds (ahead_of_probing ht hstage hwithin)
  obtain ⟨t', ht', hover | ⟨left, -, hsteps⟩⟩ := hahead
  · exact result?_of_isOver ht' hover
  · have hpos := stepsLeft_pos (w.after actions n) t'
    omega

end Run

end World
end AuditTrail
