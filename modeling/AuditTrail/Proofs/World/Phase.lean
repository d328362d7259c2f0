import AuditTrail.Proofs.World.Retrying
import Mathlib.Logic.Function.Basic

/-!
# Phases of calls that come one after another

Suppose that no call begins before all others are over.  Then a run is in one phase at a time:
nothing runs, or one get or one invalidation has come so far (`Phase`).  Each phase says what the
cache holds, compared with a table of what has been handed out since it was invalidated last
(`Event.remember`), and each step leads from one phase to another (`Phase.step`).
-/

namespace AuditTrail

/-- What can be asked of the cache. -/
inductive Call where
  | get (role : Role)
  | invalidate (scope : Scope)

namespace Call

def hand (whitelist : Whitelist) : Procedure (Option Whitelist) := .done (some whitelist)

def procedure : Call → Procedure (Option Whitelist)
  | get role => (Procedure.whitelistOf role).andThen hand
  | invalidate scope => (Procedure.invalidate scope).andThen fun _ => .done none

end Call

/-- A table takes in what is handed out and drops what is invalidated. -/
def Event.remember (table : Role → Option Whitelist) : Event → Role → Option Whitelist
  | .granted _ role whitelist => Function.update table role (some whitelist)
  | .bumped scope => fun role => if scope.Reaches role then none else table role
  | _ => table

/-- What the cache has of the role is what the table has of it, and it is up to date. -/
structure Cache.Mirrors (c : Cache) (table : Role → Option Whitelist) (role : Role) : Prop where
  value : (c.entry? role).map Cache.Entry.whitelist = table role
  fresh : ∀ entry, c.entry? role = some entry → entry.generation = c.generation role

theorem Cache.Mirrors.entry_of_some {c : Cache} {table : Role → Option Whitelist} {role : Role}
    {whitelist : Whitelist} (h : c.Mirrors table role) (hsome : table role = some whitelist) :
    ∃ entry, c.entry? role = some entry ∧ entry.whitelist = whitelist ∧
      entry.generation = c.generation role := by
  obtain ⟨entry, hentry, hwhitelist⟩ := Option.map_eq_some_iff.1 (h.value.trans hsome)
  exact ⟨entry, hentry, hwhitelist, h.fresh entry hentry⟩

namespace World

variable {σ : Type}

def Idle (w : World σ (Option Whitelist)) : Prop :=
  ∀ id t, w.task? id = some t → t.procedure.isOver = true

/-- All other tasks are over. -/
def Alone (w : World σ (Option Whitelist)) (id : TaskId) : Prop :=
  ∀ i t, i ≠ id → w.task? i = some t → t.procedure.isOver = true

/-- How far the one call that is not over has come, if there is one. -/
inductive Phase (w : World σ (Option Whitelist)) (table : Role → Option Whitelist) : Prop
  | resting (hidle : w.Idle) (hloads : ∀ role, w.cache.flight? role = none)
    (h : ∀ role, w.cache.Mirrors table role)
  | probing {id role} (halone : w.Alone id)
    (htask : w.task? id = some ⟨.whitelist role Call.hand, .probing⟩)
    (hloads : ∀ role, w.cache.flight? role = none) (h : ∀ role, w.cache.Mirrors table role)
  | waiting {id role stage} (halone : w.Alone id)
    (htask : w.task? id = some ⟨.whitelist role Call.hand, .waiting⟩)
    (hflight : w.cache.flight? role = some ⟨stage, [id]⟩)
    (hagrees : stage.Agrees (w.cache.generation role))
    (hloads : ∀ r, r ≠ role → w.cache.flight? r = none) (h : ∀ role, w.cache.Mirrors table role)
    (habsent : table role = none)
  | holding {id role stage entry} (halone : w.Alone id)
    (htask : w.task? id = some ⟨.whitelist role Call.hand, stage⟩)
    (hstage : stage = .holding entry ∨ stage = .counted entry (w.cache.counter role))
    (hentry : w.cache.entry? role = some entry)
    (hfresh : entry.generation = w.cache.generation role)
    (hvalue : table role = none ∨ table role = some entry.whitelist)
    (hloads : ∀ role, w.cache.flight? role = none) (h : ∀ r, r ≠ role → w.cache.Mirrors table r)
  | bumping {id scope stage} (halone : w.Alone id)
    (htask : w.task? id = some ⟨.bump scope (.discard scope (.done none)), stage⟩)
    (hloads : ∀ role, w.cache.flight? role = none) (h : ∀ role, w.cache.Mirrors table role)
  | discarding {id scope stage} (halone : w.Alone id)
    (htask : w.task? id = some ⟨.discard scope (.done none), stage⟩)
    (hloads : ∀ role, w.cache.flight? role = none)
    (h : ∀ role, ¬ scope.Reaches role → w.cache.Mirrors table role)
    (hcleared : ∀ role, scope.Reaches role → table role = none)

/-- An action that comes to nothing: a step of a task that is over, or of a load that is not in
flight, or a change of what only loads and procedures read. -/
inductive Fruitless (w : World σ (Option Whitelist)) : Action σ (Option Whitelist) → Prop
  | advance {id} (h : ∀ t, w.task? id = some t → t.procedure.isOver = true) :
    Fruitless w (.advance id)
  | proceed {role} (h : w.cache.flight? role = none) : Fruitless w (.proceed role)
  | deliver {role refusal} (h : w.cache.flight? role = none) : Fruitless w (.deliver role refusal)
  | changeStore {store} : Fruitless w (.changeStore store)
  | changeGraph {graph} : Fruitless w (.changeGraph graph)

variable [WhitelistStore σ]

section Step

variable {w v : World σ (Option Whitelist)} {a : Action σ (Option Whitelist)} {id : TaskId}
  {role : Role} {table : Role → Option Whitelist} {stage : RequestStage} {entry : Cache.Entry}
  {scope : Scope}

/-! ## Actions that come to nothing -/

omit [WhitelistStore σ] in
theorem Phase.of_same (h : w.Phase table) (hcache : v.cache = w.cache)
    (htasks : v.tasks = w.tasks) : v.Phase table := by
  obtain ⟨graph, graphFault, store, cache, sink, tasks⟩ := v
  simp only at hcache htasks
  subst hcache htasks
  cases h with
  | resting hidle hloads h => exact .resting hidle hloads h
  | probing halone htask hloads h => exact .probing halone htask hloads h
  | waiting halone htask hflight hagrees hloads h habsent =>
    exact .waiting halone htask hflight hagrees hloads h habsent
  | holding halone htask hstage hentry hfresh hvalue hloads h =>
    exact .holding halone htask hstage hentry hfresh hvalue hloads h
  | bumping halone htask hloads h => exact .bumping halone htask hloads h
  | discarding halone htask hloads h hcleared => exact .discarding halone htask hloads h hcleared

theorem advance_of_not_open (h : ∀ t, w.task? id = some t → t.procedure.isOver = true) :
    w.advance id = w ∧ w.events (.advance id) = [] := by
  cases htask : w.task? id with
  | none => simp [advance, events, htask]
  | some t =>
    refine ⟨advance_of_over htask (h t htask), ?_⟩
    obtain ⟨procedure, stage⟩ := t
    have hover := h _ htask
    cases procedure with
    | done value => simp [events, htask]
    | failed e => simp [events, htask]
    | _ => cases hover

theorem Fruitless.same (h : w.Fruitless a) :
    (w.step a).cache = w.cache ∧ (w.step a).tasks = w.tasks ∧ w.events a = [] := by
  cases h with
  | advance hover =>
    obtain ⟨hsame, hevents⟩ := advance_of_not_open hover
    rw [step, hsame]
    exact ⟨rfl, rfl, hevents⟩
  | proceed hidle => simp [step, World.proceed, events, hidle]
  | deliver hidle => simp [step, World.deliver, events, hidle]
  | changeStore => exact ⟨rfl, rfl, rfl⟩
  | changeGraph => exact ⟨rfl, rfl, rfl⟩

theorem Phase.of_fruitless (h : w.Phase table) (ha : w.Fruitless a) :
    (w.step a).Phase ((w.events a).foldl Event.remember table) := by
  obtain ⟨hcache, htasks, hevents⟩ := ha.same
  rw [hevents]
  exact h.of_same hcache htasks

omit [WhitelistStore σ] in
/-- While no load is in flight, the only action that comes to something is the next step of the task
that is not over. -/
theorem Alone.eq_or_fruitless (halone : w.Alone id) (hloads : ∀ role, w.cache.flight? role = none)
    (hspawn : ∀ i p, a ≠ .spawn i p) : a = .advance id ∨ w.Fruitless a := by
  cases a with
  | spawn i p => exact absurd rfl (hspawn i p)
  | advance i =>
    by_cases hi : i = id
    · exact Or.inl (by rw [hi])
    · exact Or.inr (.advance fun t ht => halone i t hi ht)
  | proceed role => exact Or.inr (.proceed (hloads role))
  | deliver role refusal => exact Or.inr (.deliver (hloads role))
  | changeStore store => exact Or.inr .changeStore
  | changeGraph graph => exact Or.inr .changeGraph

omit [WhitelistStore σ] in
theorem Alone.setTask (halone : w.Alone id) (t : Task (Option Whitelist)) :
    (w.setTask id t).Alone id := by
  intro i s hi hs
  rw [task?_setTask, if_neg hi.symm] at hs
  exact halone i s hi hs

omit [WhitelistStore σ] in
theorem Alone.idle (halone : w.Alone id) (hover : ∀ t, w.task? id = some t →
    t.procedure.isOver = true) : w.Idle := by
  intro i t ht
  by_cases hi : i = id
  · subst hi
    exact hover t ht
  · exact halone i t hi ht

omit [WhitelistStore σ] in
theorem Idle.alone (h : w.Idle) (id : TaskId) : w.Alone id := fun i t _ ht => h i t ht

omit [WhitelistStore σ] in
theorem idle_resume {p : Procedure (Option Whitelist)} (halone : w.Alone id)
    (hover : p.isOver = true) : (w.resume id p).Idle := by
  refine (halone.setTask (Task.start p)).idle fun t ht => ?_
  rw [task?_setTask, if_pos rfl, Option.some.injEq] at ht
  rw [← ht]
  exact hover

/-! ## The steps of a call -/

/-- What is neither handed out nor invalidated leaves the table as it is. -/
theorem remember_eq_of_proceed (table : Role → Option Whitelist) :
    (w.events (.proceed role)).foldl Event.remember table = table := by
  simp only [events]
  split <;> rfl

theorem Phase.spawn (hidle : w.Idle) (hloads : ∀ role, w.cache.flight? role = none)
    (h : ∀ role, w.cache.Mirrors table role) (call : Call) :
    (w.step (.spawn id call.procedure)).Phase table := by
  rw [step]
  split
  · exact .resting hidle hloads h
  · have halone : (w.resume id call.procedure).Alone id := (hidle.alone id).setTask _
    have htask : (w.resume id call.procedure).task? id = some (Task.start call.procedure) := by
      rw [task?_resume, if_pos rfl]
    cases call with
    | get role => exact .probing halone htask hloads h
    | invalidate scope => exact .bumping halone htask hloads h

theorem Phase.probe (halone : w.Alone id)
    (htask : w.task? id = some ⟨.whitelist role Call.hand, .probing⟩)
    (hloads : ∀ role, w.cache.flight? role = none) (h : ∀ role, w.cache.Mirrors table role) :
    (w.advance id).Phase table := by
  cases hentry : w.cache.entry? role with
  | some entry =>
    have hadvance : w.advance id =
        w.setTask id ⟨.whitelist role Call.hand, .holding entry⟩ := by
      simp [advance, htask, request, hentry]
    have hvalue := (h role).value
    rw [hentry, Option.map_some] at hvalue
    rw [hadvance]
    exact .holding (halone.setTask _) (by rw [task?_setTask, if_pos rfl]) (Or.inl rfl) hentry
      ((h role).fresh entry hentry) (Or.inr hvalue.symm) hloads fun r _ => h r
  | none =>
    have hadvance : w.advance id =
        ({ w with cache := w.cache.join role id } : World σ (Option Whitelist)).setTask id
          ⟨.whitelist role Call.hand, .waiting⟩ := by
      simp [advance, htask, request, hentry]
    have hvalue := (h role).value
    rw [hentry, Option.map_none] at hvalue
    have halone' : ({ w with cache := w.cache.join role id } : World σ _).Alone id := halone
    rw [hadvance]
    have hflight : (w.cache.join role id).flight? role = some ⟨.begun, [id]⟩ := by
      rw [Cache.flight?_join, if_pos rfl, hloads role]
      rfl
    refine .waiting (halone'.setTask _) (by rw [task?_setTask, if_pos rfl]) hflight trivial ?_
      (fun r => ⟨(h r).value, (h r).fresh⟩) hvalue.symm
    intro r hr
    rw [cache_setTask, Cache.flight?_join, if_neg hr.symm, hloads r]

/-- A load that goes on. -/
theorem Phase.load {stage : Cache.LoadStage} (halone : w.Alone id)
    (htask : w.task? id = some ⟨.whitelist role Call.hand, .waiting⟩)
    (hflight : w.cache.flight? role = some ⟨stage, [id]⟩)
    (hagrees : stage.Agrees (w.cache.generation role))
    (hloads : ∀ r, r ≠ role → w.cache.flight? r = none) (h : ∀ role, w.cache.Mirrors table role)
    (habsent : table role = none) : (w.proceed role).Phase table := by
  have hgen (r : Role) : (w.proceed role).cache.generation r = w.cache.generation r := by
    refine generation_step_of_steady (a := .proceed role) fun houtdates => ?_
    obtain ⟨scope, -, hbumped⟩ := any_outdates_iff.1 houtdates
    cases shows_of_mem_events hbumped
  have hmirrors (r : Role) : (w.proceed role).cache.Mirrors table r := by
    refine ⟨?_, fun entry hentry => ?_⟩
    · rw [entry?_proceed, (h r).value]
    · rw [entry?_proceed] at hentry
      rw [hgen, (h r).fresh entry hentry]
  have hothers (r : Role) (hr : r ≠ role) : (w.proceed role).cache.flight? r = none := by
    cases hflight' : (w.proceed role).cache.flight? r with
    | none => rfl
    | some f =>
      rcases flight?_step (a := .proceed role) hflight' with hkept | ⟨i, next, hadvance, -⟩ |
        ⟨f, hproceed, -⟩
      · rw [hloads r hr] at hkept
        cases hkept
      · cases hadvance
      · cases hproceed
        exact absurd rfl hr
  obtain ⟨stage', hstage', hcase⟩ := flight?_proceed hflight
  refine .waiting (fun i t hi ht => ?_) (by rw [task?_proceed, htask]) hstage' ?_ hothers hmirrors
    habsent
  · rw [task?_proceed] at ht
    exact halone i t hi ht
  · rw [hgen]
    rcases hcase with hmoves | ⟨rfl, -⟩
    · exact agrees_of_loadMoves hmoves hagrees
    · exact hagrees

/-- The end of a load. -/
theorem Phase.land {generation : Generation} {answer : Except Error Whitelist}
    (hretains : w.cache.retains = true) (halone : w.Alone id)
    (htask : w.task? id = some ⟨.whitelist role Call.hand, .waiting⟩)
    (hflight : w.cache.flight? role = some ⟨.answered generation answer, [id]⟩)
    (hagrees : generation = w.cache.generation role)
    (hloads : ∀ r, r ≠ role → w.cache.flight? r = none) (h : ∀ role, w.cache.Mirrors table role)
    (habsent : table role = none) (refusal : Option Error) :
    (w.deliver role refusal).Phase table ∧
      (w.events (.deliver role refusal)).foldl Event.remember table = table := by
  have hgen (r : Role) : (w.deliver role refusal).cache.generation r = w.cache.generation r := by
    rw [Cache.generation, Cache.generation, counter_deliver, epoch_deliver]
  have hothers (r : Role) : (w.deliver role refusal).cache.flight? r = none := by
    rw [flight?_deliver hflight]
    split
    · rfl
    · rename_i hr
      exact hloads r (Ne.symm hr)
  have halone' : (w.deliver role refusal).Alone id := by
    intro i t hi ht
    rw [task?_deliver hflight] at ht
    obtain ⟨s, hs, rfl⟩ := Option.map_eq_some_iff.1 ht
    rw [if_neg (by simpa using hi)]
    exact halone i s hi hs
  have htask' : (w.deliver role refusal).task? id = some
      (Task.receive ⟨.whitelist role Call.hand, .waiting⟩ generation
        (Cache.outcome answer refusal)) := by
    rw [task?_deliver hflight, htask, Option.map_some, if_pos (List.mem_singleton_self id)]
  cases hout : Cache.outcome answer refusal with
  | ok whitelist =>
    rw [hout] at htask'
    refine ⟨.holding halone' htask' (Or.inl rfl) ?_ ?_ (Or.inl habsent) hothers fun r hr => ?_, ?_⟩
    · rw [entry?_deliver_ok hflight hout, if_pos ⟨hretains, rfl⟩]
    · rw [hgen]
      exact hagrees
    · have hentry : (w.deliver role refusal).cache.entry? r = w.cache.entry? r := by
        rw [entry?_deliver_ok hflight hout, if_neg fun hkept => hr hkept.2.symm]
      exact ⟨by rw [hentry, (h r).value], fun entry hentry' => by
        rw [hgen, (h r).fresh entry (hentry.symm.trans hentry')]⟩
    · simp only [events, hflight, hout, denials]
      rfl
  | error e =>
    rw [hout] at htask'
    refine ⟨.resting (halone'.idle fun t ht => ?_) hothers fun r => ?_, ?_⟩
    · rw [htask', Option.some.injEq] at ht
      rw [← ht]
      rfl
    · have hentry : (w.deliver role refusal).cache.entry? r = w.cache.entry? r :=
        entry?_deliver_error hflight hout r
      exact ⟨by rw [hentry, (h r).value], fun entry hentry' => by
        rw [hgen, (h r).fresh entry (hentry.symm.trans hentry')]⟩
    · simp only [events, hflight, hout, denials]
      rfl

theorem Phase.compare (halone : w.Alone id)
    (htask : w.task? id = some ⟨.whitelist role Call.hand, stage⟩)
    (hstage : stage = .holding entry ∨ stage = .counted entry (w.cache.counter role))
    (hentry : w.cache.entry? role = some entry)
    (hfresh : entry.generation = w.cache.generation role)
    (hvalue : table role = none ∨ table role = some entry.whitelist)
    (hloads : ∀ role, w.cache.flight? role = none)
    (h : ∀ r, r ≠ role → w.cache.Mirrors table r) :
    (w.advance id).Phase ((w.events (.advance id)).foldl Event.remember table) := by
  rcases hstage with rfl | rfl
  · have hadvance : w.advance id = w.setTask id
        ⟨.whitelist role Call.hand, .counted entry (w.cache.counter role)⟩ := by
      simp [advance, htask, request]
    have hevents : w.events (.advance id) = [] := by simp [events, htask]
    rw [hadvance, hevents]
    exact .holding (halone.setTask _) (by rw [task?_setTask, if_pos rfl]; rfl) (Or.inr rfl) hentry
      hfresh hvalue hloads h
  · have hgen : entry.generation = ⟨w.cache.epoch, w.cache.counter role⟩ := hfresh
    have hadvance : w.advance id = w.resume id (Call.hand entry.whitelist) := by
      simp [advance, htask, request, hgen]
    have hevents : w.events (.advance id) = [.granted id role entry.whitelist] := by
      simp [events, htask, hgen]
    rw [hadvance, hevents]
    refine .resting (idle_resume halone rfl) hloads fun r => ?_
    by_cases hr : r = role
    · subst hr
      refine ⟨?_, fun e he => ?_⟩
      · rw [cache_resume, hentry, Option.map_some]
        exact (Function.update_self r _ table).symm
      · rw [cache_resume, hentry, Option.some.injEq] at he
        rw [← he]
        exact hfresh
    · exact ⟨(h r hr).value.trans (Function.update_of_ne hr _ table).symm, (h r hr).fresh⟩

/-- A bump drops from the table what the scope reaches, although it is still resident. -/
theorem Phase.bump (halone : w.Alone id)
    (htask : w.task? id = some ⟨.bump scope (.discard scope (.done none)), stage⟩)
    (hloads : ∀ role, w.cache.flight? role = none) (h : ∀ role, w.cache.Mirrors table role) :
    (w.advance id).Phase ((w.events (.advance id)).foldl Event.remember table) := by
  have hadvance : w.advance id = ({ w with cache := w.cache.bump scope } : World σ _).resume id
      (.discard scope (.done none)) := by
    simp [advance, htask]
  have hevents : w.events (.advance id) = [.bumped scope] := by simp [events, htask]
  have halone' : ({ w with cache := w.cache.bump scope } : World σ _).Alone id := halone
  rw [hadvance, hevents]
  refine .discarding (halone'.setTask _) (by rw [task?_resume, if_pos rfl]; rfl) (fun r => ?_)
    (fun r hr => ?_) fun r hr => ?_
  · rw [cache_resume, Cache.flight?_bump, hloads r]
  · have hgen : (w.cache.bump scope).generation r = w.cache.generation r :=
      Cache.generation_bump_of_not_reaches hr
    refine ⟨?_, fun e he => ?_⟩
    · rw [cache_resume, Cache.entry?_bump, (h r).value]
      exact (if_neg hr).symm
    · rw [cache_resume, Cache.entry?_bump] at he
      rw [cache_resume, hgen]
      exact (h r).fresh e he
  · exact if_pos hr

theorem Phase.discard (halone : w.Alone id)
    (htask : w.task? id = some ⟨.discard scope (.done none), stage⟩)
    (hloads : ∀ role, w.cache.flight? role = none)
    (h : ∀ role, ¬ scope.Reaches role → w.cache.Mirrors table role)
    (hcleared : ∀ role, scope.Reaches role → table role = none) :
    (w.advance id).Phase ((w.events (.advance id)).foldl Event.remember table) := by
  have hadvance : w.advance id = ({ w with cache := w.cache.discard scope } : World σ _).resume id
      (.done none) := by
    simp [advance, htask]
  have hevents : w.events (.advance id) = [.discarded scope] := by simp [events, htask]
  have halone' : ({ w with cache := w.cache.discard scope } : World σ _).Alone id := halone
  rw [hadvance, hevents]
  refine .resting (idle_resume halone' rfl) (fun r => ?_) fun r => ?_
  · rw [cache_resume, Cache.flight?_discard, hloads r]
  · have hentry := Cache.entry?_discard w.cache scope r
    by_cases hr : scope.Reaches r
    · rw [if_pos hr] at hentry
      refine ⟨?_, fun e he => ?_⟩
      · rw [cache_resume, hentry]
        exact (hcleared r hr).symm
      · rw [cache_resume, hentry] at he
        cases he
    · rw [if_neg hr] at hentry
      refine ⟨?_, fun e he => ?_⟩
      · rw [cache_resume, hentry]
        exact (h r hr).value
      · rw [cache_resume, hentry] at he
        rw [cache_resume, Cache.generation_discard]
        exact (h r hr).fresh e he

/-! ## One step -/

omit [WhitelistStore σ] in
theorem Alone.eq_of_open {i : TaskId} {t : Task (Option Whitelist)} (halone : w.Alone i)
    (htask : w.task? id = some t) (hopen : t.procedure.isOver = false) : i = id := by
  refine Classical.byContradiction fun hne => ?_
  rw [halone id t (Ne.symm hne) htask] at hopen
  cases hopen

/-- While a get waits, its load goes on or ends, or nothing changes. -/
theorem Phase.wait {loadStage : Cache.LoadStage} (hretains : w.cache.retains = true)
    (halone : w.Alone id) (htask : w.task? id = some ⟨.whitelist role Call.hand, .waiting⟩)
    (hflight : w.cache.flight? role = some ⟨loadStage, [id]⟩)
    (hagrees : loadStage.Agrees (w.cache.generation role))
    (hloads : ∀ r, r ≠ role → w.cache.flight? r = none) (h : ∀ role, w.cache.Mirrors table role)
    (habsent : table role = none) (hspawn : ∀ i p, a ≠ .spawn i p) :
    (w.step a).Phase ((w.events a).foldl Event.remember table) := by
  have hphase : w.Phase table := .waiting halone htask hflight hagrees hloads h habsent
  cases a with
  | spawn i p => exact absurd rfl (hspawn i p)
  | advance i =>
    by_cases hi : i = id
    · subst hi
      have hadvance : w.advance i = w := by simp [advance, htask, request]
      have hevents : w.events (.advance i) = [] := by simp [events, htask]
      rw [World.step, hadvance, hevents]
      exact hphase
    · exact hphase.of_fruitless (.advance fun t ht => halone i t hi ht)
  | proceed r =>
    by_cases hr : r = role
    · subst hr
      rw [remember_eq_of_proceed]
      exact Phase.load halone htask hflight hagrees hloads h habsent
    · exact hphase.of_fruitless (.proceed (hloads r hr))
  | deliver r refusal =>
    by_cases hr : r = role
    · subst hr
      cases loadStage with
      | answered generation answer =>
        obtain ⟨hnext, hsame⟩ :=
          Phase.land hretains halone htask hflight hagrees hloads h habsent refusal
        rw [hsame]
        exact hnext
      | _ =>
        have hsame : w.deliver r refusal = w := by simp [World.deliver, hflight]
        have hevents : w.events (.deliver r refusal) = [] := by simp [events, hflight]
        rw [World.step, hsame, hevents]
        exact hphase
    · exact hphase.of_fruitless (.deliver (hloads r hr))
  | changeStore store => exact hphase.of_fruitless .changeStore
  | changeGraph graph => exact hphase.of_fruitless .changeGraph

theorem Phase.step (hretains : w.cache.retains = true) (h : w.Phase table)
    (hcalls : ∀ i p, a = .spawn i p → (∃ call : Call, p = call.procedure) ∧ w.Idle) :
    (w.step a).Phase ((w.events a).foldl Event.remember table) := by
  -- nothing is spawned while a task is not over
  have hspawn {i : TaskId} {t : Task (Option Whitelist)} (ht : w.task? i = some t)
      (hopen : t.procedure.isOver = false) (i' : TaskId) (p : Procedure (Option Whitelist)) :
      a ≠ .spawn i' p := by
    intro ha
    rw [(hcalls i' p ha).2 i t ht] at hopen
    cases hopen
  have hphase := h
  cases h with
  | resting hidle hloads h =>
    by_cases hspawns : ∃ i p, a = .spawn i p
    · obtain ⟨i, p, rfl⟩ := hspawns
      obtain ⟨⟨call, rfl⟩, -⟩ := hcalls i p rfl
      exact Phase.spawn hidle hloads h call
    · rcases (hidle.alone 0).eq_or_fruitless hloads fun i p ha => hspawns ⟨i, p, ha⟩ with
        rfl | hfruitless
      · exact hphase.of_fruitless (.advance fun t ht => hidle 0 t ht)
      · exact hphase.of_fruitless hfruitless
  | @probing id role halone htask hloads h =>
    rcases halone.eq_or_fruitless hloads (hspawn htask rfl) with rfl | hfruitless
    · have hevents : w.events (.advance id) = [.consulted id role] := by simp [events, htask]
      rw [hevents]
      exact Phase.probe halone htask hloads h
    · exact hphase.of_fruitless hfruitless
  | waiting halone htask hflight hagrees hloads h habsent =>
    exact Phase.wait hretains halone htask hflight hagrees hloads h habsent (hspawn htask rfl)
  | holding halone htask hstage hentry hfresh hvalue hloads h =>
    rcases halone.eq_or_fruitless hloads (hspawn htask rfl) with rfl | hfruitless
    · exact Phase.compare halone htask hstage hentry hfresh hvalue hloads h
    · exact hphase.of_fruitless hfruitless
  | bumping halone htask hloads h =>
    rcases halone.eq_or_fruitless hloads (hspawn htask rfl) with rfl | hfruitless
    · exact Phase.bump halone htask hloads h
    · exact hphase.of_fruitless hfruitless
  | discarding halone htask hloads h hcleared =>
    rcases halone.eq_or_fruitless hloads (hspawn htask rfl) with rfl | hfruitless
    · exact Phase.discard halone htask hloads h hcleared
    · exact hphase.of_fruitless hfruitless

/-! ## What a phase says -/

omit [WhitelistStore σ] in
/-- A request has not consulted the cache yet, or it waits for its own load, or it has an entry in
hand that is up to date. -/
theorem Phase.of_request {next : Whitelist → Procedure (Option Whitelist)} (h : w.Phase table)
    (htask : w.task? id = some ⟨.whitelist role next, stage⟩) :
    stage = .probing ∧ (∀ r, w.cache.flight? r = none) ∧ (∀ r, w.cache.Mirrors table r) ∨
      stage = .waiting ∧ (∀ r, r ≠ role → w.cache.flight? r = none) ∨
      ∃ entry, (stage = .holding entry ∨ stage = .counted entry (w.cache.counter role)) ∧
        ∀ r, w.cache.flight? r = none := by
  cases h with
  | resting hidle hloads h => cases hidle id _ htask
  | probing halone hprobing hloads h =>
    obtain rfl := halone.eq_of_open htask rfl
    rw [htask] at hprobing
    cases hprobing
    exact Or.inl ⟨rfl, hloads, h⟩
  | waiting halone hwaiting hflight hagrees hloads h habsent =>
    obtain rfl := halone.eq_of_open htask rfl
    rw [htask] at hwaiting
    cases hwaiting
    exact Or.inr (Or.inl ⟨rfl, hloads⟩)
  | @holding i role' stage' entry halone hholding hstage hentry hfresh hvalue hloads h =>
    obtain rfl := halone.eq_of_open htask rfl
    rw [htask] at hholding
    cases hholding
    exact Or.inr (Or.inr ⟨entry, hstage, hloads⟩)
  | bumping halone hbump hloads h =>
    obtain rfl := halone.eq_of_open htask rfl
    rw [htask] at hbump
    cases hbump
  | discarding halone hdiscard hloads h hcleared =>
    obtain rfl := halone.eq_of_open htask rfl
    rw [htask] at hdiscard
    cases hdiscard

omit [WhitelistStore σ] in
theorem Phase.mirrors_of_idle (h : w.Phase table) (hidle : w.Idle) (role : Role) :
    w.cache.Mirrors table role := by
  cases h with
  | resting _ hloads h => exact h role
  | probing halone htask hloads h => exact h role
  | waiting halone htask hflight hagrees hloads h habsent => exact h role
  | holding halone htask hstage hentry hfresh hvalue hloads h => cases hidle _ _ htask
  | bumping halone htask hloads h => exact h role
  | discarding halone htask hloads h hcleared => cases hidle _ _ htask

omit [WhitelistStore σ] in
/-- One call runs at a time, and a load is in flight for it alone. -/
theorem Phase.alone_of_open {t : Task (Option Whitelist)} (h : w.Phase table)
    (htask : w.task? id = some t) (hopen : t.procedure.isOver = false) :
    w.Alone id ∧ ((∃ role, t = ⟨.whitelist role Call.hand, .waiting⟩) ∨
      ∀ role, w.cache.flight? role = none) := by
  cases h with
  | resting hidle hloads h =>
    rw [hidle id t htask] at hopen
    cases hopen
  | probing halone hprobing hloads h =>
    obtain rfl := halone.eq_of_open htask hopen
    exact ⟨halone, Or.inr hloads⟩
  | waiting halone hwaiting hflight hagrees hloads h habsent =>
    obtain rfl := halone.eq_of_open htask hopen
    rw [htask, Option.some.injEq] at hwaiting
    exact ⟨halone, Or.inl ⟨_, hwaiting⟩⟩
  | holding halone hholding hstage hentry hfresh hvalue hloads h =>
    obtain rfl := halone.eq_of_open htask hopen
    exact ⟨halone, Or.inr hloads⟩
  | bumping halone hbump hloads h =>
    obtain rfl := halone.eq_of_open htask hopen
    exact ⟨halone, Or.inr hloads⟩
  | discarding halone hdiscard hloads h hcleared =>
    obtain rfl := halone.eq_of_open htask hopen
    exact ⟨halone, Or.inr hloads⟩

omit [WhitelistStore σ] in
/-- An entry that is resident is up to date unless it is about to be discarded. -/
theorem Phase.generation_eq (h : w.Phase table) (hentry : w.cache.entry? role = some entry) :
    entry.generation = w.cache.generation role ∨
      ∃ id scope next stage, w.task? id = some ⟨.discard scope next, stage⟩ ∧
        scope.Reaches role := by
  cases h with
  | resting hidle hloads h => exact Or.inl ((h role).fresh entry hentry)
  | probing halone htask hloads h => exact Or.inl ((h role).fresh entry hentry)
  | waiting halone htask hflight hagrees hloads h habsent =>
    exact Or.inl ((h role).fresh entry hentry)
  | @holding i role' stage' held halone htask hstage hheld hfresh hvalue hloads h =>
    by_cases hr : role = role'
    · subst hr
      rw [hheld, Option.some.injEq] at hentry
      rw [← hentry]
      exact Or.inl hfresh
    · exact Or.inl ((h role hr).fresh entry hentry)
  | bumping halone htask hloads h => exact Or.inl ((h role).fresh entry hentry)
  | @discarding i scope stage halone htask hloads h hcleared =>
    by_cases hr : scope.Reaches role
    · exact Or.inr ⟨i, scope, _, stage, htask, hr⟩
    · exact Or.inl ((h role hr).fresh entry hentry)

omit [WhitelistStore σ] in
/-- What is in the table is resident and up to date. -/
theorem Phase.entry_of_some {whitelist : Whitelist} (h : w.Phase table)
    (hsome : table role = some whitelist) :
    ∃ entry, w.cache.entry? role = some entry ∧ entry.whitelist = whitelist ∧
      entry.generation = w.cache.generation role := by
  cases h with
  | resting hidle hloads h => exact (h role).entry_of_some hsome
  | probing halone htask hloads h => exact (h role).entry_of_some hsome
  | waiting halone htask hflight hagrees hloads h habsent =>
    exact (h role).entry_of_some hsome
  | @holding i role' stage' held halone htask hstage hheld hfresh hvalue hloads h =>
    by_cases hr : role = role'
    · subst hr
      have hheld' : table role = some held.whitelist := hvalue.resolve_left (by rw [hsome]; simp)
      rw [hsome, Option.some.injEq] at hheld'
      exact ⟨held, hheld, hheld'.symm, hfresh⟩
    · exact (h role hr).entry_of_some hsome
  | bumping halone htask hloads h => exact (h role).entry_of_some hsome
  | @discarding i scope stage halone htask hloads h hcleared =>
    have hr : ¬ scope.Reaches role := fun hr => by
      rw [hcleared role hr] at hsome
      cases hsome
    exact (h role hr).entry_of_some hsome

end Step

end World
end AuditTrail
