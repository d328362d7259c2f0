import AuditTrail.Proofs.World.Progress
import Mathlib.Algebra.Order.Interval.Finset.SuccPred
import Mathlib.Data.Nat.SuccPred
import Mathlib.Order.Interval.Finset.Nat

/-!
# How often a request begins again

A request that finds its entry out of date takes it out and begins again, and nothing in the request
counts its rounds.  What bounds them is the generation of the role.  As long as it stays, a first
round may come to an entry from before: then no other load is in flight (`LoadsMiss`), so whatever
the second round comes to is from a load that began later (`Suffices`).  So each bump costs two
rounds at most (`RequestEnds`), and since there are at most nine steps from one round to the next, a
request to which its steps come round is answered.
-/

namespace AuditTrail

/-- What was loaded for the role before is out of date from now on. -/
def Event.outdates (role : Role) : Event → Bool
  | .bumped scope => decide (scope.Reaches role)
  | _ => false

def Event.answers (id : TaskId) (role : Role) : Event → Bool
  | .granted i r _ | .denied i r _ => decide (i = id ∧ r = role)
  | _ => false

namespace World

variable {σ ρ : Type}

/-- From one time to another, so many times in turn, the task takes a step, the load of the role
takes one, and the load is told to end, well or not. -/
inductive Attended (actions : List (Action σ ρ)) (id : TaskId) (role : Role) :
    Nat → Nat → Nat → Prop
  | zero {m n : Nat} (h : m ≤ n) : Attended actions id role 0 m n
  | succ {count m l n : Nat}
    (hown : ∃ k, m ≤ k ∧ k < l ∧ actions[k]? = some (.advance id))
    (hload : ∃ k, m ≤ k ∧ k < l ∧ actions[k]? = some (.proceed role))
    (hlanding : ∃ k refusal, m ≤ k ∧ k < l ∧ actions[k]? = some (.deliver role refusal))
    (hrest : Attended actions id role count l n) : Attended actions id role (count + 1) m n

/-- The action brings the request ahead. -/
def Attends (w : World σ ρ) (id : TaskId) (role : Role) : RequestStage → Action σ ρ → Prop
  | .waiting, a =>
    if w.loadLeft role = 0 then ∃ refusal, a = .deliver role refusal else a = .proceed role
  | _, a => a = .advance id

/-- So many more rounds are enough for the request if the generation of the role stays. -/
def Suffices (w : World σ ρ) (role : Role) (left : Nat) : RequestStage → Prop
  | .probing => 1 ≤ left ∧ (w.Stamps role (w.cache.generation role) ∨ 2 ≤ left)
  | .waiting => w.LoadAgrees role (w.cache.generation role) ∨ 1 ≤ left
  | .holding entry => entry.generation = w.cache.generation role ∨
      1 ≤ left ∧ (w.LoadAgrees role (w.cache.generation role) ∨ 2 ≤ left)
  | .counted entry counter => entry.generation = ⟨w.cache.epoch, counter⟩ ∨
      1 ≤ left ∧ (w.LoadAgrees role (w.cache.generation role) ∨ 2 ≤ left)
  | .outdated _ => 1 ≤ left ∧ (w.LoadAgrees role (w.cache.generation role) ∨ 2 ≤ left)

/-- The steps before the request when it may take so many more rounds. -/
def stepsToGo (w : World σ ρ) (role : Role) (left : Nat) : RequestStage → Nat
  | .probing => 9 * left
  | .waiting => 9 * left + w.loadLeft role + 4
  | .holding _ => 9 * left + 3
  | .counted _ _ => 9 * left + 2
  | .outdated _ => 9 * left + 1

theorem Attended.le {actions : List (Action σ ρ)} {id : TaskId} {role : Role} {count m n : Nat}
    (h : Attended actions id role count m n) : m ≤ n := by
  induction h with
  | zero h => exact h
  | succ hown _ _ _ ih =>
    obtain ⟨k, hmk, hkl, -⟩ := hown
    omega

/-- Rounds of all that can be due for a task attend to each of its requests. -/
theorem Rounds.attended {actions : List (Action σ ρ)} {id : TaskId} {roles : List Role}
    {role : Role} {count m n : Nat} (h : Rounds actions (Action.Serves id roles) count m n)
    (hrole : role ∈ roles) : Attended actions id role count m n := by
  induction h with
  | zero h => exact .zero h
  | succ hround _ ih =>
    obtain ⟨k, hlanding⟩ := hround _ (.landing hrole)
    exact .succ (hround _ .own) (hround _ (.load hrole)) ⟨k, none, hlanding⟩ ih

variable [WhitelistStore σ]

/-- How a request goes on that is not answered in this step. -/
inductive Continues (w : World σ ρ) (id : TaskId) (role : Role) :
    Action σ ρ → RequestStage → RequestStage → Prop
  | stays {a stage} (h : a = .advance id → stage = .waiting) : Continues w id role a stage stage
  | found {entry} (h : w.cache.entry? role = some entry) :
    Continues w id role (.advance id) .probing (.holding entry)
  | joined (h : w.cache.entry? role = none) : Continues w id role (.advance id) .probing .waiting
  | counted {entry} :
    Continues w id role (.advance id) (.holding entry) (.counted entry (w.cache.counter role))
  | refuted {entry counter} (h : entry.generation ≠ ⟨w.cache.epoch, counter⟩) :
    Continues w id role (.advance id) (.counted entry counter) (.outdated entry)
  | retried {entry} : Continues w id role (.advance id) (.outdated entry) .probing
  | received {refusal generation answer waiters whitelist}
    (h : w.cache.flight? role = some ⟨.answered generation answer, waiters⟩)
    (hok : Cache.outcome answer refusal = .ok whitelist) :
    Continues w id role (.deliver role refusal) .waiting (.holding ⟨generation, whitelist⟩)

section Structures

variable (w : World σ ρ) (actions : List (Action σ ρ)) (id : TaskId) (role : Role)

/-- How often the request consults the cache between two moments. -/
def rounds (first last : Nat) : Nat :=
  ((Finset.Ico first last).filter fun n => .consulted id role ∈ w.eventsAt actions n).card

/-- How often what was loaded for the role gets out of date between two moments. -/
def bumps (first last : Nat) : Nat :=
  ((Finset.Ico first last).filter fun n => (w.eventsAt actions n).any (·.outdates role)).card

def AnsweredAt (n : Nat) : Prop :=
  (∃ whitelist, .granted id role whitelist ∈ w.eventsAt actions n) ∨
    ∃ e, .denied id role e ∈ w.eventsAt actions n

def OpenBetween (first last : Nat) : Prop :=
  ∀ n, first ≤ n → n < last → ¬ AnsweredAt w actions id role n

/-- The request is at this stage.  It has been brought ahead so many times since it began, and it
keeps within two rounds, or eighteen steps, for its beginning and for each bump. -/
structure Underway (next : Whitelist → Procedure ρ) (begin now : Nat) (stage : RequestStage)
    (left count : Nat) : Prop where
  task : (w.after actions now).task? id = some ⟨.whitelist role next, stage⟩
  suffices_left : (w.after actions now).Suffices role left stage
  rounds : rounds w actions id role begin now + left = 2 * (bumps w actions role begin now + 1)
  steps : (w.after actions now).stepsToGo role left stage + count ≤
    18 * (bumps w actions role begin now + 1)

end Structures

/-! ## One step -/

section Step

variable {w : World σ ρ} {id : TaskId} {role : Role} {next : Whitelist → Procedure ρ}
  {stage stage' : RequestStage} {a : Action σ ρ} {left : Nat}

theorem continues_or_answered (hwait : WaitersWait w)
    (htask : w.task? id = some ⟨.whitelist role next, stage⟩) (a : Action σ ρ) :
    (∃ stage', (w.step a).task? id = some ⟨.whitelist role next, stage'⟩ ∧
        w.Continues id role a stage stage') ∨
      (∃ whitelist, .granted id role whitelist ∈ w.events a) ∨
        ∃ e, .denied id role e ∈ w.events a := by
  by_cases hown : a = .advance id ∧ stage ≠ .waiting
  · obtain ⟨rfl, hstage⟩ := hown
    obtain ⟨t', ht', ⟨-, hover | ⟨r, next', hwaits⟩⟩ | hmoves⟩ := task?_advance htask
    · cases hover
    · cases hwaits
      exact absurd rfl hstage
    · cases hmoves with
      | found hentry => exact Or.inl ⟨_, ht', .found hentry⟩
      | joined habsent => exact Or.inl ⟨_, ht', .joined habsent⟩
      | counted => exact Or.inl ⟨_, ht', .counted⟩
      | granted hgen => exact Or.inr (Or.inl ⟨_, mem_events_of_shows (.granted htask hgen)⟩)
      | refuted hgen => exact Or.inl ⟨_, ht', .refuted hgen⟩
      | retried => exact Or.inl ⟨_, ht', .retried⟩
  · have hstays : a = .advance id → stage = .waiting := fun ha =>
      Classical.byContradiction fun hstage => hown ⟨ha, hstage⟩
    obtain ⟨t', ht', rfl | hmoves⟩ := task?_step htask a
    · exact Or.inl ⟨stage, ht', .stays hstays⟩
    · cases hmoves with
      | @received r refusal generation answer waiters _ hflight hid =>
        obtain ⟨next', hnext'⟩ := hwait.eq_waiting htask hflight hid
        cases hnext'
        cases hout : Cache.outcome answer refusal with
        | ok whitelist =>
          rw [hout] at ht'
          exact Or.inl ⟨_, ht', .received hflight hout⟩
        | error e => exact Or.inr (Or.inr ⟨_, mem_events_of_shows (.denied hflight hout hid)⟩)
      | _ => cases hstays rfl

theorem consulted_mem_iff (htask : w.task? id = some ⟨.whitelist role next, stage⟩) :
    .consulted id role ∈ w.events a ↔ a = .advance id ∧ stage = .probing := by
  constructor
  · intro h
    cases shows_of_mem_events h with
    | consulted hprobing =>
      rw [htask, Option.some.injEq, Task.mk.injEq] at hprobing
      exact ⟨rfl, hprobing.2⟩
  · rintro ⟨rfl, rfl⟩
    exact mem_events_of_shows (.consulted htask)

theorem not_consulted_of_stage (htask : w.task? id = some ⟨.whitelist role next, stage⟩)
    (hstage : stage ≠ .probing) : .consulted id role ∉ w.events a := fun h =>
  hstage ((consulted_mem_iff htask).1 h).2

theorem any_outdates_iff : (w.events a).any (·.outdates role) = true ↔
    ∃ scope, scope.Reaches role ∧ .bumped scope ∈ w.events a := by
  rw [List.any_eq_true]
  constructor
  · rintro ⟨e, he, houtdates⟩
    cases e with
    | bumped scope => exact ⟨scope, of_decide_eq_true houtdates, he⟩
    | _ => cases houtdates
  · rintro ⟨scope, hscope, hbumped⟩
    exact ⟨_, hbumped, decide_eq_true hscope⟩

/-- As long as nothing that reaches the role is bumped, its generation stays. -/
theorem generation_step_of_steady (h : ¬ (w.events a).any (·.outdates role) = true) :
    (w.step a).cache.generation role = w.cache.generation role := by
  have htouch := touches_step w a
  generalize (w.step a).cache = c at htouch ⊢
  cases htouch with
  | @bumps i scope next stage htask =>
    have hbumped : .bumped scope ∈ w.events (.advance i) := mem_events_of_shows (.bumped htask)
    exact Cache.generation_bump_of_not_reaches fun hscope =>
      h (any_outdates_iff.2 ⟨scope, hscope, hbumped⟩)
  | _ => simp [Cache.generation]

/-- No step of the request, nor of the load that it waits for, bumps anything. -/
theorem not_outdates_of_attends (htask : w.task? id = some ⟨.whitelist role next, stage⟩)
    (ha : w.Attends id role stage a) : ¬ (w.events a).any (·.outdates role) = true := by
  intro h
  obtain ⟨scope, -, hbumped⟩ := any_outdates_iff.1 h
  cases shows_of_mem_events hbumped with
  | @bumped i _ _ _ hbump =>
    have hown : i = id := by
      cases stage with
      | waiting =>
        rw [Attends] at ha
        split at ha
        · obtain ⟨refusal, hdeliver⟩ := ha
          cases hdeliver
        · cases ha
      | _ =>
        cases ha
        rfl
    rw [hown, htask] at hbump
    cases hbump

/-! ### Rounds -/

omit [WhitelistStore σ] in
theorem suffices_add_two (w : World σ ρ) (role : Role) (left : Nat) (stage : RequestStage) :
    w.Suffices role (left + 2) stage := by
  have hone : 1 ≤ left + 2 := by omega
  have htwo : 2 ≤ left + 2 := by omega
  cases stage with
  | probing => exact ⟨hone, Or.inr htwo⟩
  | waiting => exact Or.inr hone
  | holding entry => exact Or.inr ⟨hone, Or.inr htwo⟩
  | counted entry counter => exact Or.inr ⟨hone, Or.inr htwo⟩
  | outdated entry => exact ⟨hone, Or.inr htwo⟩

/-- What others do makes no more rounds necessary as long as the generation stays. -/
theorem Suffices.of_steady (h : w.Suffices role left stage)
    (hgen : (w.step a).cache.generation role = w.cache.generation role) :
    (w.step a).Suffices role left stage := by
  have hagrees (hload : w.LoadAgrees role (w.cache.generation role)) :
      (w.step a).LoadAgrees role (w.cache.generation role) := hload.step rfl a
  have hepoch : (w.step a).cache.epoch = w.cache.epoch := congrArg Generation.epoch hgen
  cases stage with
  | probing =>
    rw [Suffices, hgen]
    exact ⟨h.1, h.2.imp_left fun hstamps => hstamps.step rfl a⟩
  | waiting =>
    rw [Suffices, hgen]
    exact Or.imp_left hagrees h
  | holding entry =>
    rw [Suffices, hgen]
    exact Or.imp_right (And.imp_right (Or.imp_left hagrees)) h
  | counted entry counter =>
    rw [Suffices, hgen, hepoch]
    exact Or.imp_right (And.imp_right (Or.imp_left hagrees)) h
  | outdated entry =>
    rw [Suffices, hgen]
    exact And.imp_right (Or.imp_left hagrees) h

theorem cache_step_of_outdated {entry : Cache.Entry}
    (htask : w.task? id = some ⟨.whitelist role next, .outdated entry⟩) :
    (w.step (.advance id)).cache = w.cache.discard (.role role) := by
  simp [step, advance, htask, request]

/-- One round less is enough after the request has consulted the cache, and as many after any other
step. -/
theorem Suffices.step (hmiss : LoadsMiss w)
    (htask : w.task? id = some ⟨.whitelist role next, stage⟩)
    (hcont : w.Continues id role a stage stage') (h : w.Suffices role left stage)
    (hgen : (w.step a).cache.generation role = w.cache.generation role) :
    ∃ left', (w.step a).Suffices role left' stage' ∧
      left' + (if .consulted id role ∈ w.events a then 1 else 0) = left := by
  have hfree (hstage : stage ≠ .probing) :
      left + (if .consulted id role ∈ w.events a then 1 else 0) = left := by
    rw [if_neg (not_consulted_of_stage htask hstage), Nat.add_zero]
  have hspends (hconsults : a = .advance id ∧ stage = .probing) (hone : 1 ≤ left) :
      left - 1 + (if .consulted id role ∈ w.events a then 1 else 0) = left := by
    rw [if_pos ((consulted_mem_iff htask).2 hconsults)]
    omega
  cases hcont with
  | stays hstays =>
    refine ⟨left, h.of_steady hgen, ?_⟩
    rw [if_neg, Nat.add_zero]
    rw [consulted_mem_iff htask]
    rintro ⟨rfl, rfl⟩
    cases hstays rfl
  | found hentry =>
    obtain ⟨hone, hcase⟩ := h
    refine ⟨left - 1, Suffices.of_steady ?_ hgen, hspends ⟨rfl, rfl⟩ hone⟩
    rcases hcase with hstamps | htwo
    · exact Or.inl (hstamps.entry _ hentry)
    · refine Or.inr ⟨by omega, Or.inl fun flight hflight => ?_⟩
      rw [hmiss role flight hflight] at hentry
      cases hentry
  | joined habsent =>
    obtain ⟨hone, hcase⟩ := h
    refine ⟨left - 1, Suffices.of_steady ?_ hgen, hspends ⟨rfl, rfl⟩ hone⟩
    rcases hcase with hstamps | htwo
    · exact Or.inl hstamps.flight
    · exact Or.inr (by omega)
  | counted => exact ⟨left, Suffices.of_steady h hgen, hfree (by simp)⟩
  | refuted hne => exact ⟨left, Suffices.of_steady (h.resolve_left hne) hgen, hfree (by simp)⟩
  | retried =>
    refine ⟨left, ⟨h.1, h.2.imp_left fun hagrees => ⟨fun entry hentry => ?_, ?_⟩⟩,
      hfree (by simp)⟩
    · have hreaches : (Scope.role role).Reaches role := rfl
      rw [cache_step_of_outdated htask, Cache.entry?_discard, if_pos hreaches] at hentry
      cases hentry
    · rw [hgen]
      exact LoadAgrees.step hagrees rfl _
  | received hflight hok =>
    refine ⟨left, ?_, hfree (by simp)⟩
    rw [Suffices, hgen]
    rcases h with hagrees | hone
    · exact Or.inl (hagrees _ hflight)
    · refine Or.inr ⟨hone, Or.inl fun flight hlater => ?_⟩
      rw [World.step, flight?_deliver hflight, if_pos rfl] at hlater
      cases hlater

/-! ### Steps -/

/-- While a request waits, the load that it waits for moves by its own steps alone and does not
end. -/
theorem loadLeft_step_of_waiting (hlisted : WaitingListed w)
    (htask : w.task? id = some ⟨.whitelist role next, .waiting⟩)
    (hstill : (w.step a).task? id = some ⟨.whitelist role next, .waiting⟩) :
    (w.step a).loadLeft role = w.loadLeft role - (if a.carries role then 1 else 0) ∧
      ∀ refusal, a = .deliver role refusal → w.loadLeft role ≠ 0 := by
  obtain ⟨flight, hflight, hid⟩ := hlisted id role next htask
  have hnotLanded (outcome : Except Error Whitelist) : .landed role outcome ∉ w.events a :=
    fun hlanded => not_waiting_of_landed hlanded hflight hid hstill
  have hleft : w.loadLeft role = flight.stage.left := by rw [loadLeft, hflight]
  constructor
  · rcases flight?_step_of_some hflight a with ⟨flight', hflight', -, hleft'⟩ | ⟨outcome, hlanded⟩
    · rw [loadLeft, hflight', hleft]
      exact hleft'
    · exact absurd hlanded (hnotLanded outcome)
  · rintro refusal rfl hzero
    rw [hleft] at hzero
    obtain ⟨loadStage, waiters⟩ := flight
    cases loadStage with
    | answered generation answer =>
      exact hnotLanded _ (mem_events_of_shows (.landed hflight))
    | _ => cases hzero

/-- A step that does not bring the request ahead leaves what it stands before as it was. -/
theorem Continues.attends_or (hlisted : WaitingListed w)
    (htask : w.task? id = some ⟨.whitelist role next, stage⟩)
    (htask' : (w.step a).task? id = some ⟨.whitelist role next, stage'⟩)
    (hcont : w.Continues id role a stage stage') :
    w.Attends id role stage a ∨ stage' = stage ∧
      (stage = .waiting → (w.step a).loadLeft role = w.loadLeft role) := by
  cases hcont with
  | stays hstays =>
    by_cases hwaiting : stage = .waiting
    · subst hwaiting
      obtain ⟨hleft, -⟩ := loadLeft_step_of_waiting hlisted htask htask'
      cases hcarries : a.carries role with
      | false =>
        rw [hcarries] at hleft
        exact Or.inr ⟨rfl, fun _ => hleft⟩
      | true =>
        rw [hcarries] at hleft
        by_cases hzero : w.loadLeft role = 0
        · refine Or.inr ⟨rfl, fun _ => ?_⟩
          rw [hleft, hzero, Nat.zero_sub]
        · left
          rw [Attends, if_neg hzero]
          exact eq_proceed_of_carries hcarries
    · exact Or.inr ⟨rfl, fun h => absurd h hwaiting⟩
  | @received refusal generation answer waiters whitelist hflight hok =>
    left
    have hzero : w.loadLeft role = 0 := by
      rw [loadLeft, hflight]
      rfl
    rw [Attends, if_pos hzero]
    exact ⟨refusal, rfl⟩
  | _ => exact Or.inl rfl

/-- Each step that brings the request ahead is one of those before it. -/
theorem stepsToGo_step (hlisted : WaitingListed w)
    (htask : w.task? id = some ⟨.whitelist role next, stage⟩)
    (htask' : (w.step a).task? id = some ⟨.whitelist role next, stage'⟩)
    (hcont : w.Continues id role a stage stage') (ha : w.Attends id role stage a) {left' : Nat}
    (hleft : left' + (if .consulted id role ∈ w.events a then 1 else 0) = left) :
    (w.step a).stepsToGo role left' stage' + 1 ≤ w.stepsToGo role left stage := by
  cases hcont with
  | stays hstays =>
    by_cases hwaiting : stage = .waiting
    · subst hwaiting
      obtain ⟨hload, hnotLanding⟩ := loadLeft_step_of_waiting hlisted htask htask'
      rw [if_neg (not_consulted_of_stage htask (by simp)), Nat.add_zero] at hleft
      rw [Attends] at ha
      split at ha
      · rename_i hzero
        obtain ⟨refusal, rfl⟩ := ha
        exact absurd hzero (hnotLanding refusal rfl)
      · rename_i hpos
        subst ha
        rw [Action.carries, decide_eq_true rfl, if_pos rfl] at hload
        rw [stepsToGo, stepsToGo]
        omega
    · have hown : a = .advance id := by
        cases stage with
        | waiting => exact absurd rfl hwaiting
        | _ => exact ha
      exact absurd (hstays hown) hwaiting
  | found hentry =>
    rw [if_pos ((consulted_mem_iff htask).2 ⟨rfl, rfl⟩)] at hleft
    rw [stepsToGo, stepsToGo]
    omega
  | joined habsent =>
    rw [if_pos ((consulted_mem_iff htask).2 ⟨rfl, rfl⟩)] at hleft
    have hfour := loadLeft_le (w.step (.advance id)) role
    rw [stepsToGo, stepsToGo]
    omega
  | received hflight hok =>
    rw [if_neg (not_consulted_of_stage htask (by simp)), Nat.add_zero] at hleft
    rw [stepsToGo, stepsToGo]
    omega
  | _ =>
    rw [if_neg (not_consulted_of_stage htask (by simp)), Nat.add_zero] at hleft
    rw [stepsToGo, stepsToGo]
    omega

omit [WhitelistStore σ] in
theorem stepsToGo_pos (h : w.Suffices role left stage) : 0 < w.stepsToGo role left stage := by
  cases stage with
  | probing =>
    have hone := h.1
    rw [stepsToGo]
    omega
  | _ =>
    rw [stepsToGo]
    omega

omit [WhitelistStore σ] in
theorem stepsToGo_add_two (w : World σ ρ) (role : Role) (left : Nat) (stage : RequestStage) :
    w.stepsToGo role (left + 2) stage = w.stepsToGo role left stage + 18 := by
  cases stage <;> rw [stepsToGo, stepsToGo] <;> omega

omit [WhitelistStore σ] in
theorem stepsToGo_congr {v : World σ ρ}
    (h : stage = .waiting → v.loadLeft role = w.loadLeft role) :
    v.stepsToGo role left stage = w.stepsToGo role left stage := by
  cases stage with
  | waiting => rw [stepsToGo, stepsToGo, h rfl]
  | _ => rfl

omit [WhitelistStore σ] in
theorem attends_congr {v : World σ ρ} (h : stage = .waiting → v.loadLeft role = w.loadLeft role) :
    v.Attends id role stage a ↔ w.Attends id role stage a := by
  cases stage with
  | waiting => rw [Attends, Attends, h rfl]
  | _ => exact Iff.rfl

end Step

/-! ## A request over time -/

section Run

variable {w : World σ ρ} {actions : List (Action σ ρ)} {id : TaskId} {role : Role}
  {next : Whitelist → Procedure ρ} {begin m n left count : Nat} {stage : RequestStage}

omit [WhitelistStore σ] in
theorem card_filter_Ico_succ (p : Nat → Prop) [DecidablePred p] (h : m ≤ n) :
    ((Finset.Ico m (n + 1)).filter p).card =
      ((Finset.Ico m n).filter p).card + if p n then 1 else 0 := by
  rw [← Finset.insert_Ico_right_eq_Ico_add_one h, Finset.filter_insert]
  split
  · rw [Finset.card_insert_of_notMem (by simp)]
  · rw [Nat.add_zero]

theorem rounds_succ (h : begin ≤ n) :
    rounds w actions id role begin (n + 1) = rounds w actions id role begin n +
      if .consulted id role ∈ w.eventsAt actions n then 1 else 0 :=
  card_filter_Ico_succ _ h

theorem bumps_succ (h : begin ≤ n) :
    bumps w actions role begin (n + 1) = bumps w actions role begin n +
      if (w.eventsAt actions n).any (·.outdates role) then 1 else 0 :=
  card_filter_Ico_succ _ h

theorem Underway.of_succ_count
    (h : Underway w actions id role next begin n stage left (count + 1)) :
    Underway w actions id role next begin n stage left count :=
  ⟨h.task, h.suffices_left, h.rounds, by have hsteps := h.steps; omega⟩

theorem underway_of_consulted (h : .consulted id role ∈ w.eventsAt actions begin) :
    ∃ next, Underway w actions id role next begin begin .probing 2 0 := by
  obtain ⟨a, -, hshows⟩ := mem_eventsAt_iff.1 h
  cases hshows with
  | @consulted _ _ next htask =>
    refine ⟨next, htask, suffices_add_two _ role 0 .probing, ?_, ?_⟩
    · simp [World.rounds, bumps]
    · simp [stepsToGo, bumps]

theorem any_answers_iff : (w.eventsAt actions n).any (·.answers id role) = true ↔
    AnsweredAt w actions id role n := by
  rw [List.any_eq_true]
  constructor
  · rintro ⟨e, he, hanswers⟩
    cases e with
    | granted i r whitelist =>
      obtain ⟨rfl, rfl⟩ := of_decide_eq_true hanswers
      exact Or.inl ⟨whitelist, he⟩
    | denied i r error =>
      obtain ⟨rfl, rfl⟩ := of_decide_eq_true hanswers
      exact Or.inr ⟨error, he⟩
    | _ => cases hanswers
  · rintro (⟨whitelist, hgranted⟩ | ⟨error, hdenied⟩)
    · exact ⟨_, hgranted, decide_eq_true ⟨rfl, rfl⟩⟩
    · exact ⟨_, hdenied, decide_eq_true ⟨rfl, rfl⟩⟩

instance : Decidable (AnsweredAt w actions id role n) := decidable_of_iff _ any_answers_iff

/-- What a step may cost: rounds that it takes or makes necessary, and steps, are paid for by a bump
if there is one. -/
theorem Underway.of_step {a : Action σ ρ} {stage' : RequestStage} {left' count' : Nat}
    (h : Underway w actions id role next begin n stage left count) (hbegin : begin ≤ n)
    (ha : actions[n]? = some a)
    (htask : ((w.after actions n).step a).task? id = some ⟨.whitelist role next, stage'⟩)
    (hsuffices : ((w.after actions n).step a).Suffices role left' stage')
    (hrounds : left' + (if .consulted id role ∈ (w.after actions n).events a then 1 else 0) =
      left + 2 * if ((w.after actions n).events a).any (·.outdates role) then 1 else 0)
    (hsteps : ((w.after actions n).step a).stepsToGo role left' stage' + count' ≤
      (w.after actions n).stepsToGo role left stage + count +
        18 * if ((w.after actions n).events a).any (·.outdates role) then 1 else 0) :
    Underway w actions id role next begin (n + 1) stage' left' count' := by
  have hbefore := h.rounds
  have hspent := h.steps
  refine ⟨?_, ?_, ?_, ?_⟩
  · rw [after_succ ha]
    exact htask
  · rw [after_succ ha]
    exact hsuffices
  · rw [rounds_succ hbegin, bumps_succ hbegin, eventsAt_of_some ha]
    omega
  · rw [after_succ ha, bumps_succ hbegin, eventsAt_of_some ha]
    omega

theorem Underway.of_no_action (h : Underway w actions id role next begin n stage left count)
    (hbegin : begin ≤ n) (ha : actions[n]? = none) :
    Underway w actions id role next begin (n + 1) stage left count := by
  have hevents : w.eventsAt actions n = [] := by rw [eventsAt, ha]
  refine ⟨?_, ?_, ?_, ?_⟩
  · rw [after_succ_of_none ha]
    exact h.task
  · rw [after_succ_of_none ha]
    exact h.suffices_left
  · rw [rounds_succ hbegin, bumps_succ hbegin, hevents]
    simpa using h.rounds
  · rw [after_succ_of_none ha, bumps_succ hbegin, hevents]
    simpa using h.steps

/-- One step of a request that is not answered: it gets ahead, or nothing changes for it. -/
theorem Underway.succ (hw : w.IsNew) (h : Underway w actions id role next begin n stage left count)
    (hbegin : begin ≤ n) (hopen : ¬ AnsweredAt w actions id role n) :
    (∃ stage' left', Underway w actions id role next begin (n + 1) stage' left' (count + 1)) ∨
      (∀ a, actions[n]? = some a → ¬ (w.after actions n).Attends id role stage a) ∧
        (∃ left', Underway w actions id role next begin (n + 1) stage left' count) ∧
        (stage = .waiting →
          (w.after actions (n + 1)).loadLeft role = (w.after actions n).loadLeft role) := by
  cases ha : actions[n]? with
  | none =>
    rw [after_succ_of_none ha]
    refine Or.inr ⟨fun a ha' => ?_, ⟨left, h.of_no_action hbegin ha⟩, fun _ => rfl⟩
    cases ha'
  | some a =>
    have hlisted : WaitingListed (w.after actions n) := waitingListed_after hw
    rw [AnsweredAt, eventsAt_of_some ha] at hopen
    obtain ⟨stage', htask', hcont⟩ :=
      (continues_or_answered (waitersWait_after hw) h.task a).resolve_right hopen
    rw [after_succ ha]
    by_cases hattends : (w.after actions n).Attends id role stage a
    · -- the request has one step less before it, and one round less if it consults the cache
      have hsteady := not_outdates_of_attends h.task hattends
      obtain ⟨left', hsuffices, hleft⟩ := h.suffices_left.step (loadsMiss_after hw) h.task hcont
        (generation_step_of_steady hsteady)
      have hless := stepsToGo_step hlisted h.task htask' hcont hattends hleft
      refine Or.inl ⟨stage', left', h.of_step hbegin ha htask' hsuffices ?_ ?_⟩
      · rw [if_neg hsteady, hleft]
        omega
      · rw [if_neg hsteady]
        omega
    · -- a bump makes two more rounds necessary at most, and any other step makes none
      obtain ⟨rfl, hsame⟩ := (hcont.attends_or hlisted h.task htask').resolve_left hattends
      have hnot : .consulted id role ∉ (w.after actions n).events a := by
        rw [consulted_mem_iff h.task]
        rintro ⟨rfl, rfl⟩
        exact hattends rfl
      refine Or.inr ⟨fun a' ha' => ?_, ?_, hsame⟩
      · rw [Option.some.injEq] at ha'
        rw [← ha']
        exact hattends
      · by_cases houtdates : ((w.after actions n).events a).any (·.outdates role) = true
        · refine ⟨left + 2, h.of_step hbegin ha htask' (suffices_add_two _ role left stage') ?_ ?_⟩
          · rw [if_pos houtdates, if_neg hnot]
          · rw [if_pos houtdates, stepsToGo_add_two, stepsToGo_congr hsame]
            omega
        · refine ⟨left, h.of_step hbegin ha htask'
            (h.suffices_left.of_steady (generation_step_of_steady houtdates)) ?_ ?_⟩
          · rw [if_neg houtdates, if_neg hnot]
          · rw [if_neg houtdates, stepsToGo_congr hsame]
            omega

variable (hw : w.IsNew)

include hw

theorem Underway.of_le (h : Underway w actions id role next begin m stage left count)
    (hbegin : begin ≤ m) (hmn : m ≤ n) (hopen : OpenBetween w actions id role m n) :
    ∃ stage' left', Underway w actions id role next begin n stage' left' count := by
  induction hmn with
  | refl => exact ⟨stage, left, h⟩
  | @step n hmn ih =>
    obtain ⟨stage', left', hbefore⟩ := ih fun k hk hkn => hopen k hk (Nat.lt_succ_of_lt hkn)
    rcases hbefore.succ hw (Nat.le_trans hbegin hmn) (hopen n hmn (Nat.lt_succ_self n)) with
      ⟨stage'', left'', hnext⟩ | ⟨-, ⟨left'', hnext⟩, -⟩
    · exact ⟨stage'', left'', hnext.of_succ_count⟩
    · exact ⟨stage', left'', hnext⟩

/-- The action that the request stands before stays the same until it comes. -/
theorem Underway.of_attends {k : Nat} {a : Action σ ρ}
    (h : Underway w actions id role next begin m stage left count) (hbegin : begin ≤ m)
    (hmk : m ≤ k) (hkn : k < n) (hopen : OpenBetween w actions id role m n)
    (ha : actions[k]? = some a) (hattends : (w.after actions m).Attends id role stage a) :
    ∃ stage' left', Underway w actions id role next begin n stage' left' (count + 1) := by
  obtain ⟨d, rfl⟩ := Nat.exists_eq_add_of_le hmk
  clear hmk
  induction d generalizing m left with
  | zero =>
    rcases h.succ hw hbegin (hopen m (Nat.le_refl m) hkn) with
      ⟨stage', left', hnext⟩ | ⟨hnone, -⟩
    · exact hnext.of_le hw (Nat.le_succ_of_le hbegin) hkn fun k hk hkn =>
        hopen k (Nat.le_of_succ_le hk) hkn
    · exact absurd hattends (hnone a ha)
  | succ d ih =>
    have hlater : OpenBetween w actions id role (m + 1) n := fun k hk hkn =>
      hopen k (Nat.le_of_succ_le hk) hkn
    rcases h.succ hw hbegin (hopen m (Nat.le_refl m) (by omega)) with
      ⟨stage', left', hnext⟩ | ⟨-, ⟨left', hnext⟩, hsame⟩
    · exact hnext.of_le hw (Nat.le_succ_of_le hbegin) (by omega) hlater
    · rw [← Nat.add_assoc, Nat.add_right_comm] at ha hkn
      exact ih hnext (Nat.le_succ_of_le hbegin) hlater ((attends_congr hsame).2 hattends) hkn ha

/-- Each time that all its steps have come round, the request has got ahead. -/
theorem Underway.of_attended {times : Nat} (hattended : Attended actions id role times m n)
    (h : Underway w actions id role next begin m stage left count) (hbegin : begin ≤ m)
    (hopen : OpenBetween w actions id role m n) :
    ∃ stage' left', Underway w actions id role next begin n stage' left' (count + times) := by
  induction hattended generalizing stage left count with
  | zero hmn => exact h.of_le hw hbegin hmn hopen
  | @succ times m l n hown hload hlanding hrest ih =>
    have hround : ∃ k a, m ≤ k ∧ k < l ∧ actions[k]? = some a ∧
        (w.after actions m).Attends id role stage a := by
      cases stage with
      | waiting =>
        by_cases hzero : (w.after actions m).loadLeft role = 0
        · obtain ⟨k, refusal, hmk, hkl, ha⟩ := hlanding
          exact ⟨k, _, hmk, hkl, ha, by rw [Attends, if_pos hzero]; exact ⟨refusal, rfl⟩⟩
        · obtain ⟨k, hmk, hkl, ha⟩ := hload
          exact ⟨k, _, hmk, hkl, ha, by rw [Attends, if_neg hzero]⟩
      | _ =>
        obtain ⟨k, hmk, hkl, ha⟩ := hown
        exact ⟨k, _, hmk, hkl, ha, rfl⟩
    obtain ⟨k, a, hmk, hkl, ha, hattends⟩ := hround
    have hln : l ≤ n := hrest.le
    obtain ⟨stage', left', hnext⟩ := h.of_attends hw hbegin hmk hkl
      (fun k hk hkl => hopen k hk (Nat.lt_of_lt_of_le hkl hln)) ha hattends
    obtain ⟨stage'', left'', hlast⟩ := ih hnext (by omega) fun k hk hkn =>
      hopen k (by omega) hkn
    refine ⟨stage'', left'', ?_⟩
    rw [Nat.add_comm times, ← Nat.add_assoc]
    exact hlast

/-- A request that is attended to often enough is answered. -/
theorem answered_of_attended {finish : Nat} (hbegin : .consulted id role ∈ w.eventsAt actions begin)
    (hattended : Attended actions id role (18 * (bumps w actions role begin finish + 1))
      begin finish) :
    ∃ n, begin ≤ n ∧ n < finish ∧ AnsweredAt w actions id role n := by
  refine Classical.byContradiction fun hnone => ?_
  obtain ⟨next, h⟩ := underway_of_consulted hbegin
  obtain ⟨stage, left, hlast⟩ := h.of_attended hw hattended (Nat.le_refl begin)
    fun n hn hnf hanswered => hnone ⟨n, hn, hnf, hanswered⟩
  have hpos := stepsToGo_pos hlast.suffices_left
  have hsteps := hlast.steps
  omega

omit hw in
theorem bumps_eq_zero {finish : Nat}
    (h : ∀ n scope, begin ≤ n → n < finish → scope.Reaches role →
      .bumped scope ∉ w.eventsAt actions n) : bumps w actions role begin finish = 0 := by
  rw [bumps, Finset.card_eq_zero, Finset.filter_eq_empty_iff]
  intro n hn houtdates
  rw [Finset.mem_Ico] at hn
  cases ha : actions[n]? with
  | none =>
    rw [eventsAt, ha] at houtdates
    cases houtdates
  | some a =>
    rw [eventsAt_of_some ha] at houtdates
    obtain ⟨scope, hscope, hbumped⟩ := any_outdates_iff.1 houtdates
    refine h n scope hn.1 hn.2 hscope ?_
    rw [eventsAt_of_some ha]
    exact hbumped

end Run

/-- How often a request begins again, and that it comes to an end.  In each field the request begins
at the first moment, and the bumps are those from then to the last. -/
structure RequestEnds (w : World σ ρ) (actions : List (Action σ ρ)) (id : TaskId) (role : Role)
    (begin : Nat) : Prop where
  /-- Until it is answered it takes two rounds at most for its beginning and for each bump. -/
  rounds : ∀ finish, OpenBetween w actions id role begin finish →
    rounds w actions id role begin finish ≤ 2 * (bumps w actions role begin finish + 1)
  /-- If nothing that reaches the role is bumped any more, it takes two rounds at most. -/
  settled : ∀ finish, OpenBetween w actions id role begin finish →
    (∀ n scope, begin ≤ n → n < finish → scope.Reaches role →
      .bumped scope ∉ w.eventsAt actions n) → World.rounds w actions id role begin finish ≤ 2
  /-- It is answered when its steps, and those of the load that it waits for, have come round
  eighteen times for its beginning and for each bump. -/
  answered : ∀ finish,
    Attended actions id role (18 * (bumps w actions role begin finish + 1)) begin finish →
      ∃ n, begin ≤ n ∧ n < finish ∧ AnsweredAt w actions id role n

theorem request_ends {w : World σ ρ} {actions : List (Action σ ρ)} {id : TaskId} {role : Role}
    {begin : Nat} (hw : w.IsNew) (hbegin : .consulted id role ∈ w.eventsAt actions begin) :
    RequestEnds w actions id role begin := by
  have hrounds (finish : Nat) (hopen : OpenBetween w actions id role begin finish) :
      rounds w actions id role begin finish ≤ 2 * (bumps w actions role begin finish + 1) := by
    rcases Nat.le_total begin finish with hle | hle
    · obtain ⟨next, h⟩ := underway_of_consulted hbegin
      obtain ⟨stage, left, hlast⟩ := h.of_le hw (Nat.le_refl begin) hle hopen
      have hleft := hlast.rounds
      omega
    · rw [rounds, Finset.Ico_eq_empty_of_le hle]
      exact Nat.zero_le _
  refine ⟨hrounds, fun finish hopen hsteady => ?_, fun finish hattended =>
    answered_of_attended hw hbegin hattended⟩
  have htwo := hrounds finish hopen
  rw [bumps_eq_zero hsteady] at htwo
  exact htwo

namespace Contested

open Overtaken SampleRole

def invalidation : Procedure Whitelist :=
  (Procedure.invalidate (.role auditor)).andThen fun _ => .done ∅

/-- The first load of the third task is up to date when it begins.  But an invalidation from
before takes out the entry, another request begins a load, and then the role is bumped again.  So
the third round comes to a load from before, and the fourth is the last. -/
def steps : List (Action MemoryStore Whitelist) :=
  [.spawn 1 (.whitelistOf auditor), .advance 1, .proceed auditor, .proceed auditor,
    .proceed auditor, .proceed auditor, .deliver auditor none,
    .spawn 2 invalidation, .advance 2, .spawn 3 (.whitelistOf auditor),
    .advance 3, .advance 3, .advance 3, .advance 3,
    .advance 3, .proceed auditor, .proceed auditor, .proceed auditor, .proceed auditor,
    .deliver auditor none, .advance 2, .spawn 4 (.whitelistOf auditor), .advance 4,
    .proceed auditor, .proceed auditor, .spawn 5 invalidation, .advance 5,
    .advance 3, .advance 3, .advance 3,
    .advance 3, .proceed auditor, .proceed auditor, .deliver auditor none,
    .advance 3, .advance 3, .advance 3,
    .advance 3, .proceed auditor, .proceed auditor, .proceed auditor, .proceed auditor,
    .deliver auditor none, .advance 3, .advance 3]

def turn : List (Action MemoryStore Whitelist) :=
  [.advance 3, .proceed auditor, .deliver auditor none]

/-- From the first bump on, the third task and its load are attended to in turn. -/
def attended : List (Action MemoryStore Whitelist) :=
  steps.take 10 ++ (List.replicate 18 turn).flatten

end Contested

open Overtaken Contested SampleRole in
/-- The bound is met. -/
theorem request_ends_contested :
    rounds Overtaken.world Contested.steps 3 auditor 10 44 =
        2 * (bumps Overtaken.world Contested.steps auditor 10 44 + 1) ∧
      rounds Overtaken.world Contested.steps 3 auditor 10 44 ≤
        2 * (bumps Overtaken.world Contested.steps auditor 10 44 + 1) ∧
      ∃ n, 10 ≤ n ∧ n < 64 ∧ AnsweredAt Overtaken.world attended 3 auditor n := by
  have hopen : OpenBetween Overtaken.world Contested.steps 3 auditor 10 44 := by
    have hnone : ∀ n < 44, 10 ≤ n →
        ¬ AnsweredAt Overtaken.world Contested.steps 3 auditor n := by
      decide +kernel
    exact fun n hn hlt => hnone n hlt hn
  have hrounds : Rounds attended (Action.Serves 3 [auditor]) 18 10 64 := by
    have hturn : ∀ a : Action MemoryStore Whitelist, a.Serves 3 [auditor] → a ∈ turn := by
      rintro a (_ | hrole | hrole)
      · exact List.mem_cons_self
      all_goals
        obtain rfl := List.mem_singleton.1 hrole
        simp [turn]
    have hreplicate := rounds_of_replicate hturn (Contested.steps.take 10) [] 18
    rwa [List.append_nil] at hreplicate
  have hbegin : .consulted 3 auditor ∈ Overtaken.world.eventsAt attended 10 := by decide +kernel
  have hbumps : bumps Overtaken.world attended auditor 10 64 = 0 := by decide +kernel
  refine ⟨by decide +kernel,
    (request_ends ⟨⟨true, rfl⟩, rfl⟩ (by decide +kernel)).rounds 44 hopen,
    (request_ends ⟨⟨true, rfl⟩, rfl⟩ hbegin).answered 64 ?_⟩
  rw [hbumps]
  exact hrounds.attended (List.mem_singleton_self auditor)

end World
end AuditTrail
