import AuditTrail.Pipeline
import AuditTrail.Proofs.Decision.Exactness
import AuditTrail.Proofs.World.Sequel

/-!
# The trail of a pipeline

A sink holds the lines of exactly those records that were audited and not suppressed.  Calls are
made one after another, and during a call and between calls anything may happen but for a line of
someone else: loads fail, the graph cannot be read, whitelists are invalidated, the sink is full.

What the filter of a call answers is told by the same run with the filter alone in the place of the
call (`Call.verdict`).  The step lemma is `Follows.step`: with each step the call stays where the
filter has brought it, and appends its line at most once, after the filter has answered.
-/

namespace AuditTrail

/-! ## The sink -/

namespace Sink

/-- The sink does not hold more lines than it may. -/
def IsWithin (s : Sink) : Prop := ∀ n, s.maxLines = some n → s.lines.length ≤ n

variable {s s' : Sink} {line : String}

theorem eq_of_append_ok (h : s.append line = .ok s') :
    s.isFull = false ∧ s' = { s with lines := s.lines ++ [line] } := by
  rw [append] at h
  split at h
  · cases h
  · rename_i hfull
    rw [Except.ok.injEq] at h
    exact ⟨eq_false_of_ne_true hfull, h.symm⟩

theorem eq_of_append_error {e : Error} (h : s.append line = .error e) :
    s.isFull = true ∧ e = .sink (.full s.lines.length) := by
  rw [append] at h
  split at h
  · rename_i hfull
    rw [Except.error.injEq] at h
    exact ⟨hfull, h.symm⟩
  · cases h

theorem isFull_iff (h : s.IsWithin) : s.isFull = true ↔ s.maxLines = some s.lines.length := by
  rw [isFull]
  cases hmax : s.maxLines with
  | none => simp
  | some n =>
    have hn := h n hmax
    simp only [decide_eq_true_eq, Option.some.injEq]
    omega

theorem isWithin_of_append_ok (h : s.append line = .ok s') : s'.IsWithin := by
  obtain ⟨hroom, rfl⟩ := eq_of_append_ok h
  intro n hn
  have hmax : s.maxLines = some n := hn
  simp only [isFull, hmax, decide_eq_false_iff_not] at hroom
  simp only [List.length_append, List.length_singleton]
  omega

end Sink

/-! ## Filters -/

namespace FilterTree

variable {ι : Type} {ask : ι → Procedure Bool}

mutual

theorem onlyAsks_isFiltered (h : ∀ i, (ask i).OnlyAsks) (f : FilterTree ι) :
    (f.isFiltered ask).OnlyAsks := by
  cases f with
  | leaf i => exact h i
  | chain members => exact onlyAsks_anyFiltered h members

theorem onlyAsks_anyFiltered (h : ∀ i, (ask i).OnlyAsks) (fs : List (FilterTree ι)) :
    (anyFiltered ask fs).OnlyAsks := by
  cases fs with
  | nil => exact trivial
  | cons f fs =>
    refine (onlyAsks_isFiltered h f).andThen fun suppressed => ?_
    cases suppressed with
    | true => exact trivial
    | false => exact onlyAsks_anyFiltered h fs

end

end FilterTree

theorem Filter.onlyAsks_isFiltered (f : Filter) (record : Record) :
    (f.isFiltered record).OnlyAsks := by
  refine FilterTree.onlyAsks_isFiltered (fun leaf => ?_) f
  cases leaf with
  | nothing => exact trivial
  | users names => exact trivial
  | roles => exact Decision.onlyAsks_decideIn id record

namespace Pipeline

/-- What is left of a call when the filter has answered. -/
def afterVerdict (line : String) : Bool → Procedure Bool
  | true => .done false
  | false => .append line (.done true)

theorem audit_eq (p : Pipeline) (record : Record) :
    p.audit record =
      (p.filter.isFiltered record).andThen (afterVerdict (p.template.render record)) := by
  show Procedure.andThen _ _ = _
  congr 1
  funext suppressed
  cases suppressed <;> rfl

/-! ## A call and its filter -/

section Follows

variable {σ : Type} {line : String} {sink : Sink} {id : TaskId} {u v : World σ Bool}

/-- In the world `u` the task `id` runs a filter alone.  The world `v` is the same but that the task
runs a call with this filter, which began when the sink was `sink`. -/
inductive Follows (line : String) (sink : Sink) (id : TaskId) (u : World σ Bool) :
    World σ Bool → Prop
  | asking {t} (ht : u.task? id = some t) (hasks : t.procedure.OnlyAsks) :
    Follows line sink id u (u.withTask id (t.andThen (afterVerdict line)) sink)
  | logged {stage stage' sink'} (ht : u.task? id = some ⟨.done false, stage⟩)
    (h : sink.append line = .ok sink') :
    Follows line sink id u (u.withTask id ⟨.done true, stage'⟩ sink')
  | refused {stage stage' e} (ht : u.task? id = some ⟨.done false, stage⟩)
    (h : sink.append line = .error e) :
    Follows line sink id u (u.withTask id ⟨.failed e, stage'⟩ sink)

theorem Follows.begin (p : Pipeline) (record : Record) (w : World σ Bool) (id : TaskId) :
    Follows (p.template.render record) w.sink id (w.resume id (p.filter.isFiltered record))
      (w.resume id (p.audit record)) := by
  have hbegun : (w.resume id (p.filter.isFiltered record)).withTask id
      (Task.andThen (Task.start (p.filter.isFiltered record))
        (afterVerdict (p.template.render record))) w.sink = w.resume id (p.audit record) := by
    rw [audit_eq, World.resume, World.withTask_setTask]
    rfl
  rw [← hbegun]
  refine .asking ?_ (p.filter.onlyAsks_isFiltered record)
  rw [World.task?_resume, if_pos rfl]

variable [WhitelistStore σ]

/-- With its first step after the answer of its filter the call is over. -/
theorem advance_of_answered {suppressed : Bool} {stage : RequestStage}
    (ht : u.task? id = some ⟨.done suppressed, stage⟩)
    (hv : v = u.withTask id (Task.andThen ⟨.done suppressed, stage⟩ (afterVerdict line)) sink) :
    Follows line sink id u (v.advance id) ∧ ∃ result, (v.advance id).result? id = some result := by
  subst hv
  cases suppressed with
  | true =>
    have htask : (u.withTask id (Task.andThen ⟨.done true, stage⟩ (afterVerdict line)) sink).task?
        id = some ⟨.done false, stage⟩ := World.task?_withTask_self
    rw [World.advance_of_over htask rfl]
    exact ⟨.asking ht trivial, _, World.result?_of_done htask⟩
  | false =>
    have hcall : Task.andThen ⟨.done false, stage⟩ (afterVerdict line) =
      ⟨.append line (.done true), stage⟩ := rfl
    rw [hcall]
    cases happend : sink.append line with
    | ok sink' =>
      rw [World.advance_withTask_appended happend]
      exact ⟨.logged ht happend, _, World.result?_of_done World.task?_withTask_self⟩
    | error e =>
      rw [World.advance_withTask_unappended happend]
      exact ⟨.refused ht happend, _, World.result?_of_failed World.task?_withTask_self⟩

/-- A step keeps the call where the filter has brought it. -/
theorem Follows.step {a : World.Action σ Bool} (hwait : u.WaitersWait) (hother : u.SilentBut id)
    (h : Follows line sink id u v) : Follows line sink id (u.step a) (v.step a) := by
  cases h with
  | @asking t ht hasks =>
    -- a filter that is over stays where it is when the task is advanced, but the call goes on
    by_cases hown : a = .advance id ∧ t.procedure.isOver = true
    · obtain ⟨rfl, hover⟩ := hown
      have hstay : u.step (.advance id) = u := World.advance_of_over ht hover
      rw [hstay]
      obtain ⟨procedure, stage⟩ := t
      cases procedure with
      | done suppressed => exact (advance_of_answered ht rfl).1
      | failed e =>
        have htask : (u.withTask id (Task.andThen ⟨.failed e, stage⟩ (afterVerdict line))
            sink).task? id = some ⟨.failed e, stage⟩ := World.task?_withTask_self
        rw [World.step, World.advance_of_over htask rfl]
        exact .asking ht hasks
      | _ => cases hover
    · have hgoes (ha : a = .advance id) : t.procedure.isOver = false :=
        eq_false_of_ne_true fun hover => hown ⟨ha, hover⟩
      obtain ⟨t', ht', hasks', hstep⟩ := World.step_andThen hother ht hasks hgoes
      rw [hstep]
      exact .asking ht' hasks'
  | logged ht h =>
    obtain ⟨ht', hstep⟩ :=
      World.step_of_over (a := a) (t := ⟨.done true, _⟩) hwait hother ht rfl rfl
    rw [hstep]
    exact .logged ht' h
  | refused ht h =>
    obtain ⟨ht', hstep⟩ :=
      World.step_of_over (a := a) (t := ⟨.failed _, _⟩) hwait hother ht rfl rfl
    rw [hstep]
    exact .refused ht' h

theorem Follows.run {actions : List (World.Action σ Bool)} (hwait : u.WaitersWait)
    (hother : u.SilentBut id) (hactions : ∀ a ∈ actions, a.Silent) (h : Follows line sink id u v) :
    Follows line sink id (u.run actions) (v.run actions) := by
  induction actions generalizing u v with
  | nil => exact h
  | cons a rest ih =>
    rw [List.forall_mem_cons] at hactions
    exact ih (World.waitersWait_step hwait a) (hother.step hactions.1) hactions.2
      (h.step hwait hother)

/-- What a call returns and the sink that it leaves, by what its filter answers. -/
inductive Settles (line : String) (sink : Sink) :
    Except Error Bool → Except Error Bool → Sink → Prop
  | suppressed : Settles line sink (.ok true) (.ok false) sink
  | failed (e) : Settles line sink (.error e) (.error e) sink
  | logged {sink'} (h : sink.append line = .ok sink') :
    Settles line sink (.ok false) (.ok true) sink'
  | refused {e} (h : sink.append line = .error e) : Settles line sink (.ok false) (.error e) sink

omit [WhitelistStore σ] in
theorem Follows.settles {result : Except Error Bool} (h : Follows line sink id u v)
    (hresult : v.result? id = some result) :
    ∃ verdict, u.result? id = some verdict ∧ Settles line sink verdict result v.sink := by
  cases h with
  | @asking t ht hasks =>
    have htask : (u.withTask id (t.andThen (afterVerdict line)) sink).task? id =
        some (t.andThen (afterVerdict line)) := World.task?_withTask_self
    obtain ⟨procedure, stage⟩ := t
    cases procedure with
    | done suppressed =>
      cases suppressed with
      | true =>
        rw [World.result?_of_done htask, Option.some.injEq] at hresult
        subst hresult
        exact ⟨_, World.result?_of_done ht, .suppressed⟩
      | false => cases World.isOver_of_result? htask hresult
    | failed e =>
      rw [World.result?_of_failed htask, Option.some.injEq] at hresult
      subst hresult
      exact ⟨_, World.result?_of_failed ht, .failed e⟩
    | _ => cases World.isOver_of_result? htask hresult
  | logged ht h =>
    rw [World.result?_of_done World.task?_withTask_self, Option.some.injEq] at hresult
    subst hresult
    exact ⟨_, World.result?_of_done ht, .logged h⟩
  | refused ht h =>
    rw [World.result?_of_failed World.task?_withTask_self, Option.some.injEq] at hresult
    subst hresult
    exact ⟨_, World.result?_of_done ht, .refused h⟩

/-- With its next step after the answer of its filter a call is over. -/
theorem Follows.returns {verdict : Except Error Bool} (h : Follows line sink id u v)
    (hverdict : u.result? id = some verdict) :
    ∃ result, (v.advance id).result? id = some result := by
  cases h with
  | @asking t ht hasks =>
    have hover := World.isOver_of_result? ht hverdict
    obtain ⟨procedure, stage⟩ := t
    cases procedure with
    | done suppressed => exact (advance_of_answered ht rfl).2
    | failed e =>
      have htask : (u.withTask id (Task.andThen ⟨.failed e, stage⟩ (afterVerdict line)) sink).task?
          id = some ⟨.failed e, stage⟩ := World.task?_withTask_self
      rw [World.advance_of_over htask rfl]
      exact ⟨_, World.result?_of_failed htask⟩
    | _ => cases hover
  | logged ht h =>
    rw [World.advance_of_over World.task?_withTask_self rfl]
    exact ⟨_, World.result?_of_done World.task?_withTask_self⟩
  | refused ht h =>
    rw [World.advance_of_over World.task?_withTask_self rfl]
    exact ⟨_, World.result?_of_failed World.task?_withTask_self⟩

omit [WhitelistStore σ] in
theorem Follows.isWithin (h : Follows line sink id u v) (hsink : sink.IsWithin) :
    v.sink.IsWithin := by
  cases h with
  | asking ht hasks => exact hsink
  | logged ht h => exact Sink.isWithin_of_append_ok h
  | refused ht h => exact hsink

end Follows

/-! ## Calls -/

/-- A call for a record, in the world in which it begins and with the steps that are taken until
another one may begin. -/
structure Call (σ : Type) where
  start : World σ Bool
  id : TaskId
  record : Record
  actions : List (World.Action σ Bool)

namespace Call

variable {σ : Type} [WhitelistStore σ]

/-- The world after so many steps. -/
def during (p : Pipeline) (c : Call σ) (n : Nat) : World σ Bool :=
  (c.start.resume c.id (p.audit c.record)).after c.actions n

/-- The world after so many steps if nothing but the filter had been called. -/
def filtering (p : Pipeline) (c : Call σ) (n : Nat) : World σ Bool :=
  (c.start.resume c.id (p.filter.isFiltered c.record)).after c.actions n

def finish (p : Pipeline) (c : Call σ) : World σ Bool := c.during p c.actions.length

/-- What the call returns. -/
def result (p : Pipeline) (c : Call σ) : Option (Except Error Bool) := (c.finish p).result? c.id

/-- What the filter answers. -/
def verdict (p : Pipeline) (c : Call σ) : Option (Except Error Bool) :=
  (c.filtering p c.actions.length).result? c.id

/-- The call is made under a number of its own, and no one else writes to the sink meanwhile. -/
structure Proper (c : Call σ) : Prop where
  fresh : c.start.task? c.id = none
  silent : ∀ a ∈ c.actions, a.Silent

structure Accounted (p : Pipeline) (c : Call σ) : Prop where
  unchanged : c.result p ≠ some (.ok true) → (c.finish p).sink = c.start.sink
  /-- A line is refused by a full sink and by no other. -/
  full : c.verdict p = some (.ok false) →
    ((∃ fault, c.result p = some (.error (.sink fault))) ↔
      c.start.sink.maxLines = some c.start.sink.lines.length)
  /-- As soon as the filter has answered, the call has at most one step left. -/
  prompt : ∀ n verdict, (c.filtering p n).result? c.id = some verdict →
    ∃ result, ((c.during p n).advance c.id).result? c.id = some result
  within : ∀ n, (c.during p n).sink.IsWithin

variable {p : Pipeline} {c : Call σ}

theorem follows (hquiet : c.start.Quiet) (h : c.Proper) (n : Nat) :
    Follows (p.template.render c.record) c.start.sink c.id (c.filtering p n) (c.during p n) := by
  obtain ⟨hwait, hother⟩ := hquiet.resume (p := p.filter.isFiltered c.record) h.fresh
  refine (Follows.begin p c.record c.start c.id).run hwait hother fun a ha => ?_
  exact h.silent a (List.mem_of_mem_take ha)

theorem settles {result : Except Error Bool} (hquiet : c.start.Quiet) (h : c.Proper)
    (hresult : c.result p = some result) :
    ∃ verdict, c.verdict p = some verdict ∧
      Settles (p.template.render c.record) c.start.sink verdict result (c.finish p).sink :=
  (follows hquiet h _).settles hresult

theorem result_of_verdict {verdict result : Except Error Bool} (hquiet : c.start.Quiet)
    (h : c.Proper) (hverdict : c.verdict p = some verdict) (hresult : c.result p = some result) :
    Settles (p.template.render c.record) c.start.sink verdict result (c.finish p).sink := by
  obtain ⟨answered, hanswered, hsettles⟩ := settles hquiet h hresult
  rw [hverdict, Option.some.injEq] at hanswered
  rw [hanswered]
  exact hsettles

/-- A call that is over leaves a quiet world. -/
theorem quiet_finish {result : Except Error Bool} (hquiet : c.start.Quiet) (h : c.Proper)
    (hresult : c.result p = some result) : (c.finish p).Quiet := by
  obtain ⟨hwait, hother⟩ := hquiet.resume (p := p.audit c.record) h.fresh
  have hactions : ∀ a ∈ c.actions.take c.actions.length, a.Silent :=
    fun a ha => h.silent a (List.mem_of_mem_take ha)
  refine ⟨World.waitersWait_run hwait _, fun i t ht => ?_⟩
  by_cases hi : i = c.id
  · subst hi
    have hover := World.isOver_of_result? ht hresult
    obtain ⟨procedure, stage⟩ := t
    cases procedure with
    | done value => exact trivial
    | failed e => exact trivial
    | _ => cases hover
  · exact hother.run hactions i t hi ht

/-- What a call adds to the sink. -/
def added (p : Pipeline) (c : Call σ) : List String :=
  if c.result p = some (.ok true) then [p.template.render c.record] else []

theorem sink_finish {result : Except Error Bool} (hquiet : c.start.Quiet) (h : c.Proper)
    (hresult : c.result p = some result) :
    (c.finish p).sink =
      { c.start.sink with lines := c.start.sink.lines ++ c.added p } := by
  obtain ⟨verdict, -, hsettles⟩ := settles hquiet h hresult
  rw [added, hresult]
  generalize (c.finish p).sink = sink at hsettles ⊢
  cases hsettles with
  | suppressed => simp
  | failed e => simp
  | logged happend =>
    rw [if_pos rfl]
    exact (Sink.eq_of_append_ok happend).2
  | refused happend => simp

theorem accounted {result : Except Error Bool} (hquiet : c.start.Quiet)
    (hwithin : c.start.sink.IsWithin) (h : c.Proper) (hresult : c.result p = some result) :
    c.Accounted p := by
  refine ⟨fun hnot => ?_, fun hverdict => ?_, fun n verdict hverdict => ?_, fun n => ?_⟩
  · rw [sink_finish hquiet h hresult, added, if_neg hnot, List.append_nil]
  · have hsettles := result_of_verdict hquiet h hverdict hresult
    rw [hresult, ← Sink.isFull_iff hwithin]
    generalize (c.finish p).sink = sink at hsettles
    cases hsettles with
    | logged happend => simp [(Sink.eq_of_append_ok happend).1]
    | refused happend =>
      obtain ⟨hfull, rfl⟩ := Sink.eq_of_append_error happend
      simp [hfull]
  · exact (follows hquiet h n).returns hverdict
  · exact (follows hquiet h n).isWithin hwithin

end Call

/-! ## Sequences of calls -/

section Trail

variable {σ : Type} [WhitelistStore σ]

/-- Between two calls the graph and the store may become anything, or fail. -/
structure Between (w w' : World σ Bool) : Prop where
  cache : w'.cache = w.cache
  sink : w'.sink = w.sink
  tasks : w'.tasks = w.tasks

omit [WhitelistStore σ] in
theorem Between.quiet {w w' : World σ Bool} (h : Between w w') (hquiet : w.Quiet) : w'.Quiet := by
  have htask (i : TaskId) : w'.task? i = w.task? i := by rw [World.task?, h.tasks, World.task?]
  refine ⟨fun role flight id hflight hid => ?_, fun i t ht => ?_⟩
  · rw [h.cache] at hflight
    rw [htask]
    exact hquiet.waiters role flight id hflight hid
  · rw [htask] at ht
    exact hquiet.silent i t ht

/-- The calls are made in this order, each after the one before has returned. -/
inductive Trail (p : Pipeline) : World σ Bool → List (Call σ) → World σ Bool → Prop
  | nil (w) : Trail p w [] w
  | cons {w c calls w' result} (hbetween : Between w c.start) (hproper : c.Proper)
    (hresult : c.result p = some result) (hrest : Trail p (c.finish p) calls w') :
    Trail p w (c :: calls) w'

variable {p : Pipeline} {w w' : World σ Bool} {calls : List (Call σ)}

/-- After a sequence of calls the sink holds, besides the lines from before, one line for each call
that returned `true`, in the order of the calls. -/
theorem trail_exact (hquiet : w.Quiet) (hwithin : w.sink.IsWithin) (h : Trail p w calls w') :
    w'.sink.lines = w.sink.lines ++
        (calls.filter fun c => c.result p = some (.ok true)).map
          (fun c => p.template.render c.record) ∧
      w'.sink.maxLines = w.sink.maxLines ∧ w'.sink.IsWithin ∧ ∀ c ∈ calls, c.Accounted p := by
  induction h with
  | nil w => exact ⟨by simp, rfl, hwithin, by simp⟩
  | @cons w c calls w' result hbetween hproper hresult hrest ih =>
    have hstart := hbetween.quiet hquiet
    have hroom : c.start.sink.IsWithin := by
      rw [hbetween.sink]
      exact hwithin
    have haccounted := Call.accounted hstart hroom hproper hresult
    have hsink := Call.sink_finish hstart hproper hresult
    obtain ⟨hlines, hmax, hend, hall⟩ :=
      ih (Call.quiet_finish hstart hproper hresult) (haccounted.within _)
    refine ⟨?_, ?_, hend, List.forall_mem_cons.2 ⟨haccounted, hall⟩⟩
    · rw [hlines, hsink, hbetween.sink, List.append_assoc, Call.added, List.filter_cons]
      congr 1
      by_cases htrue : c.result p = some (.ok true)
      · simp [htrue]
      · simp [htrue]
    · rw [hmax, hsink, hbetween.sink]

end Trail

namespace Crowd

/-- A filter that passes over `root`, and lines that hold the name of the user. -/
def pipeline : Pipeline where
  filter := .leaf (.users ["root"])
  template := ⟨"", [.slot], [fun r => r.user.name.toList]⟩

def record (user : String) : Record where
  user := ⟨user⟩
  client := .v4 #v[192, 168, 0, 7]
  resource := .data
  permissions := PermissionSet.ofList [.modify]
  required := by decide
  status := .attempt
  operation := "DELETE"
  batchId := none
  timestamp := 0

/-- The sink has room for one line. -/
def world : World MemoryStore Bool where
  graph := .empty
  graphFault := none
  store := .empty
  cache := .new true
  sink := { maxLines := some 1 }
  tasks := ∅

def logged : Call MemoryStore := ⟨world, 0, record "alice", [.advance 0]⟩

def suppressed : Call MemoryStore := ⟨logged.finish pipeline, 1, record "root", [.advance 1]⟩

def refused : Call MemoryStore := ⟨suppressed.finish pipeline, 2, record "bob", [.advance 2]⟩

theorem silent_advance (id : TaskId) :
    ∀ a ∈ [World.Action.advance (σ := MemoryStore) (ρ := Bool) id], a.Silent := by
  intro a ha
  rw [List.mem_singleton.1 ha]
  exact trivial

theorem result_logged : logged.result pipeline = some (.ok true) := by decide +kernel

theorem result_suppressed : suppressed.result pipeline = some (.ok false) := by decide +kernel

theorem result_refused : refused.result pipeline = some (.error (.sink (.full 1))) := by
  decide +kernel

theorem calls : Trail pipeline world [logged, suppressed, refused] (refused.finish pipeline) := by
  have hfresh (c : Call MemoryStore) (h : (c.start.task? c.id).isNone = true) :
      c.start.task? c.id = none := Option.isNone_iff_eq_none.1 h
  refine .cons ⟨rfl, rfl, rfl⟩ ⟨hfresh logged (by decide +kernel), silent_advance 0⟩
    result_logged ?_
  refine .cons ⟨rfl, rfl, rfl⟩ ⟨hfresh suppressed (by decide +kernel), silent_advance 1⟩
    result_suppressed ?_
  refine .cons ⟨rfl, rfl, rfl⟩ ⟨hfresh refused (by decide +kernel), silent_advance 2⟩
    result_refused ?_
  exact .nil _

theorem quiet_world : world.Quiet := by
  refine ⟨fun role flight id hflight hid => ?_, fun i t ht => ?_⟩
  · simp [world, Cache.new, Cache.flight?] at hflight
  · simp [world, World.task?] at ht

end Crowd

open Crowd in
theorem trail_exact_crowd :
    (refused.finish pipeline).sink.lines = ["alice"] ∧
      (refused.finish pipeline).sink.IsWithin ∧ refused.Accounted pipeline := by
  have hwithin : world.sink.IsWithin := by
    intro n hn
    exact Nat.zero_le n
  obtain ⟨hlines, -, hend, hall⟩ := trail_exact quiet_world hwithin calls
  refine ⟨?_, hend, hall refused (by simp)⟩
  rw [hlines]
  decide +kernel

end Pipeline
end AuditTrail
