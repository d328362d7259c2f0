import AuditTrail.Proofs.World.Phase

/-!
# The cache as a table

If calls come one after another (`InTurn`), the cache is a table of what gets have handed out since
the last invalidation (`memo`): a get asks the store exactly if the table has nothing for its role
(`MemoTable`).
-/

namespace AuditTrail

def Event.isAsk : Event → Bool
  | .asked _ => true
  | _ => false

namespace World

variable {σ : Type} [WhitelistStore σ]

/-! ## Runs -/

/-- What gets have handed out by then, since their roles were invalidated last. -/
def memo (w : World σ (Option Whitelist)) (actions : List (Action σ (Option Whitelist))) :
    Nat → Role → Option Whitelist
  | 0 => fun _ => none
  | n + 1 => (w.eventsAt actions n).foldl Event.remember (memo w actions n)

/-- In how many steps between two moments the store is asked, for any role. -/
def asks (w : World σ (Option Whitelist)) (actions : List (Action σ (Option Whitelist)))
    (first last : Nat) : Nat :=
  ((Finset.Ico first last).filter fun n => (w.eventsAt actions n).any Event.isAsk).card

/-- From a cache that has not been used and that keeps entries, calls are made one after another.
The store, and which loads are refused, may change at any time. -/
structure InTurn (w : World σ (Option Whitelist)) (actions : List (Action σ (Option Whitelist))) :
    Prop where
  new : w.IsNew
  retains : w.cache.retains = true
  calls : ∀ n id p, actions[n]? = some (.spawn id p) →
    (∃ call : Call, p = call.procedure) ∧ (w.after actions n).Idle

section Run

variable {w : World σ (Option Whitelist)} {actions : List (Action σ (Option Whitelist))}
  {id : TaskId} {role : Role} {begin n finish : Nat} {stage : RequestStage}

theorem phase_after (h : InTurn w actions) (n : Nat) :
    (w.after actions n).Phase (memo w actions n) := by
  induction n with
  | zero =>
    obtain ⟨retains, hcache⟩ := h.new.cache
    refine .resting (fun id t ht => ?_) (fun role => ?_) fun role => ⟨?_, fun entry hentry => ?_⟩
    · rw [after_zero, task?, h.new.tasks] at ht
      simp at ht
    · rw [after_zero, hcache]
      simp [Cache.flight?, Cache.new]
    · rw [after_zero, h.new.entry? role]
      rfl
    · rw [after_zero, h.new.entry? role] at hentry
      cases hentry
  | succ n ih =>
    cases ha : actions[n]? with
    | none =>
      rw [after_succ_of_none ha, memo, eventsAt, ha]
      exact ih
    | some a =>
      rw [after_succ ha, memo, eventsAt_of_some ha]
      refine ih.step ((retains_after w actions n).trans h.retains) fun i p hspawn => ?_
      exact h.calls n i p (by rw [ha, hspawn])

theorem asks_succ (h : begin ≤ n) :
    asks w actions begin (n + 1) = asks w actions begin n +
      if (w.eventsAt actions n).any Event.isAsk then 1 else 0 :=
  card_filter_Ico_succ _ h

theorem any_isAsk_iff : (w.eventsAt actions n).any Event.isAsk = true ↔
    ∃ role, .asked role ∈ w.eventsAt actions n := by
  rw [List.any_eq_true]
  constructor
  · rintro ⟨e, he, hask⟩
    cases e with
    | asked role => exact ⟨role, he⟩
    | _ => cases hask
  · rintro ⟨role, hasked⟩
    exact ⟨_, hasked, rfl⟩

theorem not_asked_of_no_loads (h : ∀ role, (w.after actions n).cache.flight? role = none) :
    ¬ (w.eventsAt actions n).any Event.isAsk = true := by
  rw [any_isAsk_iff]
  rintro ⟨role, hasked⟩
  obtain ⟨a, -, hshows⟩ := mem_eventsAt_iff.1 hasked
  cases hshows with
  | asked hflight =>
    rw [h role] at hflight
    cases hflight

/-- While a request waits, the store is asked for its role alone. -/
theorem role_of_asked (h : InTurn w actions) {next : Whitelist → Procedure (Option Whitelist)}
    (htask : (w.after actions n).task? id = some ⟨.whitelist role next, .waiting⟩) {r : Role}
    (hasked : .asked r ∈ w.eventsAt actions n) : r = role := by
  obtain ⟨a, -, hshows⟩ := mem_eventsAt_iff.1 hasked
  cases hshows with
  | asked hflight =>
    refine Classical.byContradiction fun hr => ?_
    rcases (phase_after h n).of_request htask with ⟨hstage, -⟩ | ⟨-, hloads⟩ | ⟨_, _, hloads⟩
    · cases hstage
    · rw [hloads r hr] at hflight
      cases hflight
    · rw [hloads r] at hflight
      cases hflight

/-- What has become of a get that began at `begin` and has not been answered. -/
inductive Course (w : World σ (Option Whitelist)) (actions : List (Action σ (Option Whitelist)))
    (id : TaskId) (role : Role) (begin now : Nat) : Prop
  | remembered {next stage entry}
    (htask : (w.after actions now).task? id = some ⟨.whitelist role next, stage⟩)
    (hstage : stage.entry? = some entry) (hmemo : memo w actions begin role = some entry.whitelist)
    (hasks : asks w actions begin now = 0)
  | waiting {next} (htask : (w.after actions now).task? id = some ⟨.whitelist role next, .waiting⟩)
    (hmemo : memo w actions begin role = none)
    (hidle : ¬ (w.after actions (begin + 1)).IsLoading role)
    (hasks : (w.after actions now).IsLoading role ∧ asks w actions begin now = 1 ∨
      ¬ (w.after actions now).IsLoading role ∧ asks w actions begin now = 0)
  | loaded {next stage entry asked landed}
    (htask : (w.after actions now).task? id = some ⟨.whitelist role next, stage⟩)
    (hstage : stage.entry? = some entry) (hmemo : memo w actions begin role = none)
    (hload : LoadEnds w actions role (.ok entry.whitelist) asked landed) (hasked : begin < asked)
    (hlanded : landed < now) (hasks : asks w actions begin now = 1)

/-- Once a request has an entry in hand, it keeps it until it is answered, and it asks no more. -/
theorem in_hand_succ (h : InTurn w actions) (hbegin : begin ≤ n) {entry : Cache.Entry}
    {next : Whitelist → Procedure (Option Whitelist)}
    (htask : (w.after actions n).task? id = some ⟨.whitelist role next, stage⟩)
    (hstage : stage.entry? = some entry) (hopen : ¬ AnsweredAt w actions id role n) :
    asks w actions begin (n + 1) = asks w actions begin n ∧
      ∃ stage', (w.after actions (n + 1)).task? id = some ⟨.whitelist role next, stage'⟩ ∧
        stage'.entry? = some entry := by
  rcases (phase_after h n).of_request htask with ⟨rfl, -⟩ | ⟨rfl, -⟩ | ⟨held, hcase, hloads⟩
  · cases hstage
  · cases hstage
  · refine ⟨by rw [asks_succ hbegin, if_neg (not_asked_of_no_loads hloads), Nat.add_zero], ?_⟩
    cases ha : actions[n]? with
    | none =>
      rw [after_succ_of_none ha]
      exact ⟨stage, htask, hstage⟩
    | some a =>
      rw [AnsweredAt, eventsAt_of_some ha] at hopen
      obtain ⟨stage', htask', hcont⟩ :=
        (continues_or_answered (waitersWait_after h.new) htask a).resolve_right hopen
      rw [← after_succ ha] at htask'
      refine ⟨stage', htask', ?_⟩
      cases hcont with
      | stays hstays => exact hstage
      | counted => exact hstage
      | refuted hne => exact hstage
      | retried => rcases hcase with hcase | hcase <;> cases hcase
      | found hentry => cases hstage
      | joined habsent => cases hstage
      | received hflight hok => cases hstage

/-- While a get waits, it has asked the store exactly if its load is with the store. -/
theorem loading_succ_of_waiting (h : InTurn w actions) (hbegin : begin ≤ n)
    {next : Whitelist → Procedure (Option Whitelist)}
    (htask : (w.after actions n).task? id = some ⟨.whitelist role next, .waiting⟩)
    (htask' : (w.after actions (n + 1)).task? id = some ⟨.whitelist role next, .waiting⟩)
    (hasks : (w.after actions n).IsLoading role ∧ asks w actions begin n = 1 ∨
      ¬ (w.after actions n).IsLoading role ∧ asks w actions begin n = 0) :
    (w.after actions (n + 1)).IsLoading role ∧ asks w actions begin (n + 1) = 1 ∨
      ¬ (w.after actions (n + 1)).IsLoading role ∧ asks w actions begin (n + 1) = 0 := by
  rw [asks_succ hbegin]
  by_cases hask : (w.eventsAt actions n).any Event.isAsk = true
  · obtain ⟨r, hasked⟩ := any_isAsk_iff.1 hask
    obtain rfl : r = role := role_of_asked h htask hasked
    obtain ⟨-, hzero⟩ := hasks.resolve_left fun hloading => not_isLoading_of_asked hasked hloading.1
    rw [if_pos hask, hzero]
    exact Or.inl ⟨isLoading_succ_of_asked hasked, rfl⟩
  · rw [if_neg hask, Nat.add_zero]
    refine hasks.imp (And.imp_left fun hloading => ?_) (And.imp_left fun hidle hloading => ?_)
    · refine (isLoading_succ hloading).resolve_right ?_
      rintro ⟨outcome, hlanded⟩
      obtain ⟨flight, hflight, hid⟩ := waitingListed_after h.new id role next htask
      obtain ⟨a, ha, hmem⟩ := exists_action_of_mem hlanded
      rw [after_succ ha] at htask'
      exact not_waiting_of_landed hmem hflight hid htask'
    · rcases isLoading_of_succ hloading with hbefore | hasked
      · exact hidle hbefore
      · exact hask (any_isAsk_iff.2 ⟨role, hasked⟩)

theorem course_of_consulted (h : InTurn w actions)
    (hconsulted : .consulted id role ∈ w.eventsAt actions begin) :
    Course w actions id role begin (begin + 1) := by
  obtain ⟨a, ha, hshows⟩ := mem_eventsAt_iff.1 hconsulted
  cases hshows with
  | consulted htask =>
    rcases (phase_after h begin).of_request htask with ⟨-, hloads, hmirrors⟩ | ⟨hstage, -⟩ |
      ⟨entry, hstage | hstage, -⟩
    · have hasks : asks w actions begin (begin + 1) = 0 := by
        rw [asks_succ (Nat.le_refl begin), if_neg (not_asked_of_no_loads hloads)]
        simp [asks]
      have hvalue := (hmirrors role).value
      cases hentry : (w.after actions begin).cache.entry? role with
      | some entry =>
        rw [hentry, Option.map_some] at hvalue
        have htask' := task?_advance_of_found htask hentry
        rw [← step, ← after_succ ha] at htask'
        exact .remembered htask' rfl hvalue.symm hasks
      | none =>
        rw [hentry, Option.map_none] at hvalue
        have hbegun := begun_of_consulted hconsulted hentry (hloads role)
        have hidle : ¬ (w.after actions (begin + 1)).IsLoading role := by
          rintro ⟨flight, hflight, hleft⟩
          rw [hbegun, Option.some.injEq] at hflight
          rw [← hflight] at hleft
          exact absurd hleft (by simp [Cache.LoadStage.left])
        have htask' := task?_advance_of_absent htask hentry
        rw [← step, ← after_succ ha] at htask'
        exact .waiting htask' hvalue.symm hidle (Or.inr ⟨hidle, hasks⟩)
    all_goals cases hstage

theorem Course.succ (h : InTurn w actions) (hcourse : Course w actions id role begin n)
    (hbegin : begin < n) (hopen : ¬ AnsweredAt w actions id role n) :
    Course w actions id role begin (n + 1) := by
  cases hcourse with
  | remembered htask hstage hmemo hasks =>
    obtain ⟨hsame, stage', htask', hstage'⟩ :=
      in_hand_succ h (Nat.le_of_lt hbegin) htask hstage hopen
    exact .remembered htask' hstage' hmemo (hsame.trans hasks)
  | loaded htask hstage hmemo hload hasked hlanded hasks =>
    obtain ⟨hsame, stage', htask', hstage'⟩ :=
      in_hand_succ h (Nat.le_of_lt hbegin) htask hstage hopen
    exact .loaded htask' hstage' hmemo hload hasked (Nat.lt_succ_of_lt hlanded)
      (hsame.trans hasks)
  | waiting htask hmemo hidle hasks =>
    cases ha : actions[n]? with
    | none =>
      have hevents : w.eventsAt actions n = [] := by rw [eventsAt, ha]
      rw [← after_succ_of_none ha] at htask hasks
      refine .waiting htask hmemo hidle ?_
      rw [asks_succ (Nat.le_of_lt hbegin), hevents]
      simpa using hasks
    | some a =>
      rw [AnsweredAt, eventsAt_of_some ha] at hopen
      obtain ⟨stage', htask', hcont⟩ :=
        (continues_or_answered (waitersWait_after h.new) htask a).resolve_right hopen
      rw [← after_succ ha] at htask'
      cases hcont with
      | stays hstays =>
        refine .waiting htask' hmemo hidle ?_
        exact loading_succ_of_waiting h (Nat.le_of_lt hbegin) htask htask' hasks
      | @received refusal generation answer waiters whitelist hflight hok =>
        have hlanded : .landed role (.ok whitelist) ∈ w.eventsAt actions n := by
          rw [← hok]
          exact mem_eventsAt_iff.2 ⟨_, ha, .landed hflight⟩
        obtain ⟨asked, hload⟩ := loadEnds_of_landed h.new hlanded
        have hasked : begin < asked := (hload.lt_asked_iff hbegin).2 (Or.inl hidle)
        refine .loaded htask' rfl hmemo hload hasked (Nat.lt_succ_self n) ?_
        rw [asks_succ (Nat.le_of_lt hbegin), if_neg]
        · rcases hasks with ⟨-, hone⟩ | ⟨hnot, -⟩
          · exact hone
          · exact absurd (isLoading_of_landed hlanded) hnot
        · rw [any_isAsk_iff]
          rintro ⟨r, hask⟩
          rw [eventsAt_of_some ha] at hask
          cases shows_of_mem_events hask

theorem Course.of_le (h : InTurn w actions)
    (hconsulted : .consulted id role ∈ w.eventsAt actions begin) (hbegin : begin < n)
    (hopen : OpenBetween w actions id role begin n) : Course w actions id role begin n := by
  induction hbegin with
  | refl => exact course_of_consulted h hconsulted
  | @step n hbegin ih =>
    have hbefore := ih fun k hk hkn => hopen k hk (Nat.lt_succ_of_lt hkn)
    exact hbefore.succ h hbegin (hopen n (Nat.le_of_lt hbegin) (Nat.lt_succ_self n))

/-! ## The table -/

omit [WhitelistStore σ] in
theorem remember_denials (table : Role → Option Whitelist) (role : Role) (waiters : List TaskId)
    (outcome : Except Error Whitelist) :
    (denials role waiters outcome).foldl Event.remember table = table := by
  cases outcome with
  | ok whitelist => rfl
  | error e =>
    rw [denials]
    induction waiters with
    | nil => rfl
    | cons id waiters ih => exact ih

/-- What a step does to the table: it takes in one whitelist, it is cleared as far as a scope
reaches, or it stays as it is. -/
theorem remember_cases (w : World σ (Option Whitelist)) (a : Action σ (Option Whitelist))
    (table : Role → Option Whitelist) :
    (∃ id role whitelist, w.events a = [.granted id role whitelist]) ∨
      (∃ scope, w.events a = [.bumped scope]) ∨
      (w.events a).foldl Event.remember table = table ∧
        (∀ id role whitelist, .granted id role whitelist ∉ w.events a) ∧
        ∀ scope, .bumped scope ∉ w.events a := by
  cases a with
  | spawn id p => exact Or.inr (Or.inr ⟨rfl, by simp [events], by simp [events]⟩)
  | changeStore store => exact Or.inr (Or.inr ⟨rfl, by simp [events], by simp [events]⟩)
  | changeGraph graph => exact Or.inr (Or.inr ⟨rfl, by simp [events], by simp [events]⟩)
  | advance id =>
    simp only [events]
    split
    · exact Or.inr (Or.inr ⟨rfl, by simp, by simp⟩)
    · split
      · exact Or.inl ⟨_, _, _, rfl⟩
      · exact Or.inr (Or.inr ⟨rfl, by simp, by simp⟩)
    · exact Or.inr (Or.inr ⟨rfl, by simp, by simp⟩)
    · exact Or.inr (Or.inl ⟨_, rfl⟩)
    · exact Or.inr (Or.inr ⟨rfl, by simp, by simp⟩)
    · exact Or.inr (Or.inr ⟨rfl, by simp, by simp⟩)
  | proceed role =>
    refine Or.inr (Or.inr ⟨remember_eq_of_proceed table, fun id r whitelist h => ?_,
      fun scope h => ?_⟩)
    · cases shows_of_mem_events h
    · cases shows_of_mem_events h
  | deliver role refusal =>
    refine Or.inr (Or.inr ⟨?_, fun id r whitelist h => ?_, fun scope h => ?_⟩)
    · simp only [events]
      split
      · exact remember_denials _ _ _ _
      · rfl
    · cases shows_of_mem_events h
    · cases shows_of_mem_events h

theorem remember_ne_none_iff (table : Role → Option Whitelist)
    (a : Action σ (Option Whitelist)) :
    (w.events a).foldl Event.remember table role ≠ none ↔
      (∃ id whitelist, .granted id role whitelist ∈ w.events a) ∨
        table role ≠ none ∧ ∀ scope, scope.Reaches role → .bumped scope ∉ w.events a := by
  rcases remember_cases w a table with ⟨id, r, whitelist, hgranted⟩ | ⟨scope, hbumped⟩ |
    ⟨hsame, hgranted, hbumped⟩
  · rw [hgranted, List.foldl_cons, List.foldl_nil]
    by_cases hr : role = r
    · subst hr
      simp [Event.remember]
    · simp [Event.remember, hr]
  · rw [hbumped, List.foldl_cons, List.foldl_nil]
    by_cases hscope : scope.Reaches role
    · simp [Event.remember, hscope]
    · have hnone : ∀ other : Scope, other.Reaches role → other ≠ scope := by
        rintro other hother rfl
        exact hscope hother
      simpa [Event.remember, hscope] using fun _ => hnone
  · rw [hsame]
    exact ⟨fun hsome => Or.inr ⟨hsome, fun scope _ => hbumped scope⟩, fun hcase =>
      (hcase.resolve_left fun ⟨id, whitelist, h⟩ => hgranted id role whitelist h).1⟩

/-- A get of the role has succeeded before `now`, and no invalidation that reaches the role has come
after it. -/
def SucceededSince (w : World σ (Option Whitelist)) (actions : List (Action σ (Option Whitelist)))
    (role : Role) (now : Nat) : Prop :=
  ∃ id whitelist time, time < now ∧ .granted id role whitelist ∈ w.eventsAt actions time ∧
    ∀ k scope, time < k → k < now → scope.Reaches role → .bumped scope ∉ w.eventsAt actions k

theorem succeededSince_succ_iff : SucceededSince w actions role (n + 1) ↔
    (∃ id whitelist, .granted id role whitelist ∈ w.eventsAt actions n) ∨
      SucceededSince w actions role n ∧
        ∀ scope, scope.Reaches role → .bumped scope ∉ w.eventsAt actions n := by
  constructor
  · rintro ⟨id, whitelist, time, htime, hgranted, hnone⟩
    rcases Nat.lt_succ_iff_lt_or_eq.1 htime with hlt | rfl
    · exact Or.inr ⟨⟨id, whitelist, time, hlt, hgranted, fun k scope hk hkn =>
        hnone k scope hk (Nat.lt_succ_of_lt hkn)⟩,
        fun scope => hnone n scope hlt (Nat.lt_succ_self n)⟩
    · exact Or.inl ⟨id, whitelist, hgranted⟩
  · rintro (⟨id, whitelist, hgranted⟩ | ⟨⟨id, whitelist, time, htime, hgranted, hnone⟩, hlast⟩)
    · exact ⟨id, whitelist, n, Nat.lt_succ_self n, hgranted, fun k scope hk hkn => by omega⟩
    · refine ⟨id, whitelist, time, Nat.lt_succ_of_lt htime, hgranted, fun k scope hk hkn => ?_⟩
      rcases Nat.lt_succ_iff_lt_or_eq.1 hkn with hlt | rfl
      · exact hnone k scope hk hlt
      · exact hlast scope

theorem memo_ne_none_iff : memo w actions n role ≠ none ↔ SucceededSince w actions role n := by
  induction n with
  | zero => simp [memo, SucceededSince]
  | succ n ih =>
    rw [succeededSince_succ_iff, ← ih, memo]
    cases ha : actions[n]? with
    | none => simp [eventsAt, ha]
    | some a =>
      rw [eventsAt_of_some ha]
      exact remember_ne_none_iff _ a

/-! ## Invalidations -/

/-- One step of an invalidation, or of others while it runs. -/
theorem invalidation_succ (h : InTurn w actions) {scope : Scope} {t : Task (Option Whitelist)}
    (htask : (w.after actions n).task? id = some t)
    (hcase : t.procedure = .bump scope (.discard scope (.done none)) ∨
      t.procedure = .discard scope (.done none)) (hscope : ¬ scope.Reaches role) :
    (w.after actions (n + 1)).cache.entry? role = (w.after actions n).cache.entry? role ∧
      ∃ t', (w.after actions (n + 1)).task? id = some t' ∧
        (t'.procedure = .bump scope (.discard scope (.done none)) ∨
          t'.procedure = .discard scope (.done none) ∨ t'.procedure.isOver = true) := by
  have hopen : t.procedure.isOver = false := by
    rcases hcase with hcase | hcase <;> rw [hcase] <;> rfl
  obtain ⟨halone, hwaits | hloads⟩ := (phase_after h n).alone_of_open htask hopen
  · obtain ⟨r, rfl⟩ := hwaits
    rcases hcase with hcase | hcase <;> cases hcase
  · cases ha : actions[n]? with
    | none =>
      rw [after_succ_of_none ha]
      exact ⟨rfl, t, htask, hcase.imp_right Or.inl⟩
    | some a =>
      have hspawn (i : TaskId) (p : Procedure (Option Whitelist)) : a ≠ .spawn i p := by
        rintro rfl
        rw [(h.calls n i p ha).2 id t htask] at hopen
        cases hopen
      rw [after_succ ha]
      obtain ⟨procedure, stage⟩ := t
      rcases halone.eq_or_fruitless hloads hspawn with rfl | hfruitless
      · rcases hcase with hcase | hcase
        · have hbump : procedure = .bump scope (.discard scope (.done none)) := hcase
          subst hbump
          simp [step, advance, htask, task?_resume, Task.start]
        · have hdiscard : procedure = .discard scope (.done none) := hcase
          subst hdiscard
          simp [step, advance, htask, task?_resume, Task.start, Cache.entry?_discard, hscope,
            Procedure.isOver]
      · obtain ⟨hcache, htasks, -⟩ := hfruitless.same
        rw [hcache, task?, htasks]
        exact ⟨rfl, _, htask, hcase.imp_right Or.inl⟩

/-- While an invalidation runs, and when it ends, what it does not reach is as it was. -/
theorem entry?_of_invalidation (h : InTurn w actions) {scope : Scope}
    (hcall : actions[begin]? = some (.spawn id (Call.invalidate scope).procedure))
    (hunused : (w.after actions begin).task? id = none) (hbegin : begin < n)
    (hopen : ∀ k, begin < k → k < n → (w.after actions k).result? id = none)
    (hscope : ¬ scope.Reaches role) :
    (w.after actions n).cache.entry? role = (w.after actions begin).cache.entry? role ∧
      ∃ t, (w.after actions n).task? id = some t ∧
        (t.procedure = .bump scope (.discard scope (.done none)) ∨
          t.procedure = .discard scope (.done none) ∨ t.procedure.isOver = true) := by
  induction hbegin with
  | refl =>
    refine ⟨?_, _, task?_succ_of_spawn hcall hunused, Or.inl rfl⟩
    rw [after_succ hcall, step]
    split <;> rfl
  | @step n hbegin ih =>
    obtain ⟨hsame, t, htask, hcase⟩ := ih fun k hk hkn => hopen k hk (Nat.lt_succ_of_lt hkn)
    have hrunning : t.procedure = .bump scope (.discard scope (.done none)) ∨
        t.procedure = .discard scope (.done none) := by
      rcases hcase with hbump | hdiscard | hover
      · exact Or.inl hbump
      · exact Or.inr hdiscard
      · obtain ⟨result, hresult⟩ := result?_of_isOver htask hover
        rw [hopen n hbegin (Nat.lt_succ_self n)] at hresult
        cases hresult
    obtain ⟨hnext, hrest⟩ := invalidation_succ h htask hrunning hscope
    exact ⟨hnext.trans hsame, hrest⟩

/-! ## Gets -/

/-- A get of the role, from its beginning to its answer. -/
structure Gets (w : World σ (Option Whitelist)) (actions : List (Action σ (Option Whitelist)))
    (id : TaskId) (role : Role) (begin finish : Nat) : Prop where
  begins : .consulted id role ∈ w.eventsAt actions begin
  past : begin < finish
  pending : OpenBetween w actions id role begin finish
  ends : AnsweredAt w actions id role finish

/-- What becomes of a get: it hands out what the table had when it began, and does not ask the
store, or it asks the store once and comes to the outcome of that load. -/
theorem Gets.cases (h : InTurn w actions) (hget : Gets w actions id role begin finish) :
    (∃ whitelist, memo w actions begin role = some whitelist ∧
        asks w actions begin finish = 0 ∧ .granted id role whitelist ∈ w.eventsAt actions finish) ∨
      (memo w actions begin role = none ∧ asks w actions begin finish = 1 ∧
        ∃ asked landed outcome, begin < asked ∧ landed ≤ finish ∧
          LoadEnds w actions role outcome asked landed ∧
          (∀ whitelist, outcome = .ok whitelist →
            .granted id role whitelist ∈ w.eventsAt actions finish) ∧
          ∀ e, outcome = .error e → .denied id role e.relayed ∈ w.eventsAt actions finish) := by
  have hcourse := Course.of_le h hget.begins hget.past hget.pending
  rcases hget.ends with ⟨whitelist, hgranted⟩ | ⟨e, hdenied⟩
  · obtain ⟨a, -, hshows⟩ := mem_eventsAt_iff.1 hgranted
    cases hshows with
    | @granted _ _ next entry counter hcounted hgen =>
      cases hcourse with
      | @remembered next' stage held htask hstage hmemo hasks =>
        rw [hcounted] at htask
        cases htask
        cases hstage
        exact Or.inl ⟨_, hmemo, hasks, hgranted⟩
      | waiting htask hmemo hidle hasks =>
        rw [hcounted] at htask
        cases htask
      | @loaded next' stage held asked landed htask hstage hmemo hload hasked hlanded hasks =>
        rw [hcounted] at htask
        cases htask
        cases hstage
        refine Or.inr ⟨hmemo, hasks, asked, landed, _, hasked, Nat.le_of_lt hlanded, hload, ?_, ?_⟩
        · intro whitelist hwhitelist
          cases hwhitelist
          exact hgranted
        · intro e he
          cases he
  · obtain ⟨error, hlanded, rfl⟩ := landed_of_denied hdenied
    obtain ⟨a, -, hshows⟩ := mem_eventsAt_iff.1 hdenied
    generalize error.relayed = told at hshows
    cases hshows with
    | denied hflight hout hid =>
      obtain ⟨next, hwaiting⟩ := waitersWait_after h.new role _ id hflight hid
      cases hcourse with
      | remembered htask hstage hmemo hasks =>
        rw [hwaiting] at htask
        cases htask
        cases hstage
      | waiting htask hmemo hidle hasks =>
        obtain ⟨asked, hload⟩ := loadEnds_of_landed h.new hlanded
        have hasked : begin < asked := (hload.lt_asked_iff hget.past).2 (Or.inl hidle)
        have hone := (hasks.resolve_right fun hnot => hnot.1 (isLoading_of_landed hlanded)).2
        refine Or.inr ⟨hmemo, hone, asked, finish, _, hasked, Nat.le_refl finish, hload, ?_, ?_⟩
        · intro whitelist hwhitelist
          cases hwhitelist
        · intro e he
          cases he
          exact hdenied
      | loaded htask hstage hmemo hload hasked hlanded hasks =>
        rw [hwaiting] at htask
        cases htask
        cases hstage

/-- A get to which its steps come round is answered: as long as it runs, nothing is bumped. -/
theorem get_answered (h : InTurn w actions)
    (hconsulted : .consulted id role ∈ w.eventsAt actions begin)
    (hattended : Attended actions id role 18 begin finish) :
    ∃ n, begin ≤ n ∧ n < finish ∧ AnsweredAt w actions id role n := by
  refine Classical.byContradiction fun hnone => hnone ?_
  have hopen : OpenBetween w actions id role begin finish := fun n hn hnf hanswered =>
    hnone ⟨n, hn, hnf, hanswered⟩
  have hsteady : bumps w actions role begin finish = 0 := by
    refine bumps_eq_zero fun n scope hn hnf _ hbumped => ?_
    obtain ⟨next, hunderway⟩ := underway_of_consulted hconsulted
    obtain ⟨stage, left, hlater⟩ := hunderway.of_le h.new (Nat.le_refl begin) hn fun k hk hkn =>
      hopen k hk (Nat.lt_trans hkn hnf)
    obtain ⟨halone, -⟩ := (phase_after h n).alone_of_open hlater.task rfl
    obtain ⟨a, -, hshows⟩ := mem_eventsAt_iff.1 hbumped
    cases hshows with
    | bumped hbump =>
      obtain rfl := halone.eq_of_open hbump rfl
      rw [hlater.task] at hbump
      cases hbump
  refine answered_of_attended h.new hconsulted ?_
  rw [hsteady]
  exact hattended

end Run

/-- What the cache does when calls come one after another. -/
structure MemoTable (w : World σ (Option Whitelist))
    (actions : List (Action σ (Option Whitelist))) : Prop where
  /-- The table has something for a role exactly if a get has succeeded since the last invalidation
  that reaches the role. -/
  filled : ∀ n role, memo w actions n role ≠ none ↔ SucceededSince w actions role n
  /-- While no call runs, what is resident is what the table has. -/
  resident : ∀ n role, (w.after actions n).Idle →
    ((w.after actions n).cache.entry? role).map Cache.Entry.whitelist = memo w actions n role
  /-- What the table has was given by one load, which asked the store after the last invalidation.
  What has become of the store since makes no difference. -/
  sourced : ∀ n role whitelist, memo w actions n role = some whitelist →
    ∃ asked landed, landed < n ∧ LoadGives w actions role whitelist asked landed ∧
      ∀ i scope, i < n → scope.Reaches role → .bumped scope ∈ w.eventsAt actions i → i < asked
  /-- A get asks the store once if the table has nothing for its role, and else not at all. -/
  asks : ∀ id role begin finish, Gets w actions id role begin finish →
    World.asks w actions begin finish = if memo w actions begin role = none then 1 else 0
  /-- A get hands out what the table has. -/
  remembered : ∀ id role begin finish whitelist, Gets w actions id role begin finish →
    memo w actions begin role = some whitelist →
      .granted id role whitelist ∈ w.eventsAt actions finish
  /-- If the table has nothing, the get comes to the outcome of its own load. -/
  loaded : ∀ id role begin finish, Gets w actions id role begin finish →
    memo w actions begin role = none → ∃ asked landed outcome, begin < asked ∧ landed ≤ finish ∧
      LoadEnds w actions role outcome asked landed ∧
      (∀ whitelist, outcome = .ok whitelist →
        .granted id role whitelist ∈ w.eventsAt actions finish) ∧
      ∀ e, outcome = .error e → .denied id role e.relayed ∈ w.eventsAt actions finish
  /-- A get to which its steps, and those of its load, come round is answered. -/
  answered : ∀ id role begin finish, .consulted id role ∈ w.eventsAt actions begin →
    Attended actions id role 18 begin finish →
      ∃ n, begin ≤ n ∧ n < finish ∧ AnsweredAt w actions id role n
  /-- What is resident is up to date, unless an invalidation is about to take it out. -/
  upToDate : ∀ n role entry, (w.after actions n).cache.entry? role = some entry →
    entry.generation = (w.after actions n).cache.generation role ∨
      ∃ id scope next stage, (w.after actions n).task? id = some ⟨.discard scope next, stage⟩ ∧
        scope.Reaches role
  /-- No get takes anything out. -/
  undropped : ∀ n id role, .dropped id role ∉ w.eventsAt actions n
  /-- From its beginning to its end an invalidation leaves alone what it does not reach. -/
  kept : ∀ id scope begin finish,
    actions[begin]? = some (.spawn id (Call.invalidate scope).procedure) →
    (w.after actions begin).task? id = none → begin < finish →
    (∀ n, begin < n → n < finish → (w.after actions n).result? id = none) →
      ∀ role, ¬ scope.Reaches role →
        (w.after actions finish).cache.entry? role = (w.after actions begin).cache.entry? role

theorem memo_table {w : World σ (Option Whitelist)} {actions : List (Action σ (Option Whitelist))}
    (h : InTurn w actions) : MemoTable w actions where
  filled n role := memo_ne_none_iff
  resident n role hidle := ((phase_after h n).mirrors_of_idle hidle role).value
  sourced n role whitelist hsome := by
    obtain ⟨entry, hentry, rfl, hfresh⟩ := (phase_after h n).entry_of_some hsome
    obtain ⟨asked, landed, hlanded, hgives, t, ht, hread⟩ :=
      sourced_of_resident h.new role entry hentry
    refine ⟨asked, landed, hlanded, hgives, fun i scope hi hscope hbumped => ?_⟩
    have hcounter := congrArg Generation.counter hfresh
    have hepoch := congrArg Generation.epoch hfresh
    exact Nat.lt_trans (lt_of_readAt hread hbumped hscope hi (Nat.le_refl n) (Nat.le_refl n)
      hcounter.symm hepoch.symm) ht
  asks id role begin finish hget := by
    rcases hget.cases h with ⟨whitelist, hmemo, hasks, -⟩ | ⟨hmemo, hasks, -⟩
    · rw [hasks, hmemo, if_neg (by simp)]
    · rw [hasks, if_pos hmemo]
  remembered id role begin finish whitelist hget hmemo := by
    rcases hget.cases h with ⟨other, hother, -, hgranted⟩ | ⟨hnone, -⟩
    · rw [hmemo, Option.some.injEq] at hother
      rw [hother]
      exact hgranted
    · rw [hmemo] at hnone
      cases hnone
  loaded id role begin finish hget hmemo := by
    rcases hget.cases h with ⟨whitelist, hsome, -⟩ | ⟨-, -, hload⟩
    · rw [hmemo] at hsome
      cases hsome
    · exact hload
  answered id role begin finish hconsulted hattended := get_answered h hconsulted hattended
  upToDate n role entry hentry := (phase_after h n).generation_eq hentry
  undropped n id role hdropped := by
    obtain ⟨a, -, hshows⟩ := mem_eventsAt_iff.1 hdropped
    cases hshows with
    | dropped htask =>
      rcases (phase_after h n).of_request htask with ⟨hstage, -⟩ | ⟨hstage, -⟩ |
        ⟨entry, hstage | hstage, -⟩ <;> cases hstage
  kept id scope begin finish hcall hunused hbegin hopen role hscope :=
    (entry?_of_invalidation h hcall hunused hbegin hopen hscope).1

/-! ## A run -/

section Extend

variable {w : World σ (Option Whitelist)} {actions rest : List (Action σ (Option Whitelist))}

theorem InTurn.nil (hw : w.IsNew) (hretains : w.cache.retains = true) : InTurn w [] :=
  ⟨hw, hretains, fun n id p hspawn => by cases hspawn⟩

/-- When all calls are over, another one can be made. -/
theorem InTurn.call (h : InTurn w actions) (hidle : (w.run actions).Idle) (id : TaskId)
    (call : Call) (hrest : ∀ i p, .spawn i p ∉ rest) :
    InTurn w (actions ++ .spawn id call.procedure :: rest) := by
  refine ⟨h.new, h.retains, fun n i p hspawn => ?_⟩
  rw [List.getElem?_append] at hspawn
  have hbefore (hn : n ≤ actions.length) :
      w.after (actions ++ .spawn id call.procedure :: rest) n = w.after actions n := by
    rw [after, after, List.take_append_of_le_length hn]
  split at hspawn
  · rename_i hlt
    rw [hbefore (Nat.le_of_lt hlt)]
    exact h.calls n i p hspawn
  · rename_i hge
    obtain ⟨d, rfl⟩ := Nat.exists_eq_add_of_le (Nat.le_of_not_lt hge)
    rw [Nat.add_sub_cancel_left] at hspawn
    cases d with
    | zero =>
      cases hspawn
      refine ⟨⟨call, rfl⟩, ?_⟩
      rw [hbefore (Nat.le_refl _), after, Nat.add_zero, List.take_length]
      exact hidle
    | succ d =>
      rw [List.getElem?_cons_succ] at hspawn
      exact absurd (List.mem_of_getElem? hspawn) (hrest i p)

omit [WhitelistStore σ] in
theorem idle_of_all (h : ∀ entry ∈ w.tasks.toList, entry.2.procedure.isOver = true) : w.Idle :=
  fun _ _ ht => h _ (Std.ExtTreeMap.mem_toList_iff_getElem?_eq_some.2 ht)

end Extend

namespace Remembering

open Overtaken (exempt)
open SampleRole

def world : World MemoryStore (Option Whitelist) := ⟨.empty, none, .empty, .new true, {}, ∅⟩

/-- The first get loads, and then the whitelist changes in the store. -/
def loading : List (Action MemoryStore (Option Whitelist)) :=
  [.spawn 1 (Call.get auditor).procedure, .advance 1, .proceed auditor, .proceed auditor,
    .proceed auditor, .proceed auditor, .deliver auditor none, .advance 1, .advance 1,
    .changeStore (MemoryStore.empty.grant auditor .data [.select])]

/-- The second get is told what the first one was. -/
def finding : List (Action MemoryStore (Option Whitelist)) :=
  loading ++ [.spawn 2 (Call.get auditor).procedure, .advance 2, .advance 2, .advance 2]

def invalidating : List (Action MemoryStore (Option Whitelist)) :=
  finding ++ [.spawn 3 (Call.invalidate .everything).procedure, .advance 3, .advance 3]

/-- The third get loads again. -/
def reloading : List (Action MemoryStore (Option Whitelist)) :=
  invalidating ++ [.spawn 4 (Call.get auditor).procedure, .advance 4, .proceed auditor,
    .proceed auditor, .proceed auditor, .proceed auditor, .deliver auditor none, .advance 4,
    .advance 4]

theorem inTurn_reloading : InTurn world reloading := by
  have hnone : InTurn world [] := .nil ⟨⟨true, rfl⟩, rfl⟩ rfl
  have hloading : InTurn world loading :=
    hnone.call (idle_of_all (by decide +kernel)) 1 (.get auditor) (by simp)
  have hfinding : InTurn world finding :=
    hloading.call (idle_of_all (by decide +kernel)) 2 (.get auditor) (by simp)
  have hinvalidating : InTurn world invalidating :=
    hfinding.call (idle_of_all (by decide +kernel)) 3 (.invalidate .everything) (by simp)
  exact hinvalidating.call (idle_of_all (by decide +kernel)) 4 (.get auditor) (by simp)

end Remembering

open Overtaken Remembering SampleRole in
theorem memo_table_remembering :
    .granted 2 auditor .empty ∈ Remembering.world.eventsAt reloading 13 ∧
      asks Remembering.world reloading 11 13 = 0 ∧ asks Remembering.world reloading 18 25 = 1 ∧
      .granted 4 auditor exempt ∈ Remembering.world.eventsAt reloading 25 := by
  have htable : MemoTable Remembering.world reloading := memo_table inTurn_reloading
  have hfound : Gets Remembering.world reloading 2 auditor 11 13 := by
    have hnone : ∀ n < 13, 11 ≤ n → ¬ AnsweredAt Remembering.world reloading 2 auditor n := by
      decide +kernel
    exact ⟨by decide +kernel, by decide, fun n hn hlt => hnone n hlt hn, by decide +kernel⟩
  have hloaded : Gets Remembering.world reloading 4 auditor 18 25 := by
    have hnone : ∀ n < 25, 18 ≤ n → ¬ AnsweredAt Remembering.world reloading 4 auditor n := by
      decide +kernel
    exact ⟨by decide +kernel, by decide, fun n hn hlt => hnone n hlt hn, by decide +kernel⟩
  have hkept : memo Remembering.world reloading 11 auditor = some .empty := by decide +kernel
  have hdropped : memo Remembering.world reloading 18 auditor = none := by decide +kernel
  refine ⟨htable.remembered 2 auditor 11 13 _ hfound hkept, ?_, ?_, by decide +kernel⟩
  · rw [htable.asks 2 auditor 11 13 hfound, hkept, if_neg (by simp)]
  · rw [htable.asks 4 auditor 18 25 hloaded, if_pos hdropped]

end World
end AuditTrail
