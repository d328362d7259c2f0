import AuditTrail.Proofs.Decision.Exactness
import AuditTrail.Proofs.World.Progress

/-!
# Decisions that share their loads

Any number of decisions run at once over a cache that was empty, and nothing is invalidated, refused
or changed meanwhile.  However they interleave, the store is asked for each role once at most, and
for no role that none of the users holds.  Every decision ends, and its answer is that of the
reference.  A decision that comes to `false` has asked all roles of its user, so a repetition of it
finds them all in the cache (`sharesLoads`).
-/

namespace AuditTrail.Decision

open Procedure (Answers)
open World (Action Answering LoadsSucceed Rounds)

/-! ## The questions of a decision -/

section Questions

variable {A : Answers} {roles : List Role} {lineage : List Resource}

theorem within_askUntil {fits : Whitelist → Bool} {seen : List Whitelist} {unasked : List Role}
    {next : Option Progress → Procedure Bool} (hroles : ∀ x ∈ unasked, x ∈ roles)
    (hnone : ∀ n, (next none).Within A roles n)
    (hsome : ∀ seen rest, (∀ x ∈ rest, x ∈ roles) →
      (next (some ⟨seen, rest⟩)).Within A roles rest.length) :
    ((askUntil fits seen unasked).andThen next).Within A roles unasked.length := by
  induction unasked generalizing seen with
  | nil => exact hnone 0
  | cons x rest ih =>
    have hrest : ∀ y ∈ rest, y ∈ roles := fun y hy => hroles y (List.mem_cons_of_mem x hy)
    refine ⟨hroles x List.mem_cons_self, fun w _ => ?_⟩
    show ((if fits w = true then Procedure.done (some ⟨seen ++ [w], rest⟩)
      else askUntil fits (seen ++ [w]) rest).andThen next).Within A roles rest.length
    split
    · exact hsome _ rest hrest
    · exact ih hrest

theorem within_coverAll {progress : Progress} {ps : List Permission}
    (hroles : ∀ x ∈ progress.unasked, x ∈ roles) :
    (coverAll lineage progress ps).Within A roles progress.unasked.length := by
  induction ps generalizing progress with
  | nil => exact trivial
  | cons p ps ih =>
    rw [coverAll]
    split
    · exact ih hroles
    · exact within_askUntil hroles (fun n => trivial) fun seen rest hrest => ih hrest

/-- Besides the whitelists a decision asks two questions. -/
theorem within_decideIn {record : Record} {order : List Role → List Role}
    (horder : ∀ l, (order l).Perm l) (hclosure : ∀ l, A.closure record.user (.ok l) → l = roles)
    (hsorted : ∀ l m, A.sorted l m → m.Perm l) :
    (decideIn order record).Within A roles (roles.length + 2) := by
  intro l hl sorted hsort
  obtain rfl := hclosure l hl
  have hperm : sorted.Perm l := (hsorted _ _ hsort).trans (horder l)
  rw [← hperm.length_eq]
  exact within_coverAll fun x hx => hperm.mem_iff.1 hx

/-- A decision shows whom it is about and in which order it takes the roles. -/
theorem decideIn_inj {record record' : Record} {order order' : List Role → List Role}
    (h : decideIn order record = decideIn order' record') :
    record.user = record'.user ∧ order = order' := by
  have hclosure : Procedure.closure record.user
        (fun l => .residentFirst (order l) (amongRoles record)) =
      Procedure.closure record'.user
        (fun l => .residentFirst (order' l) (amongRoles record')) := h
  rw [Procedure.closure.injEq] at hclosure
  refine ⟨hclosure.1, funext fun l => ?_⟩
  have hsorted := congrFun hclosure.2 l
  rw [Procedure.residentFirst.injEq] at hsorted
  exact hsorted.1

end Questions

/-! ## Calls -/

section Calls

variable {σ : Type} [WhitelistStore σ]

/-- A decision is called for and the store has the whitelists of all roles of its user, or something
goes on that invalidates, refuses and changes nothing. -/
inductive IsAudit (w : World σ Bool) : Action σ Bool → Prop
  | decide {id : TaskId} {order : List Role → List Role} {record : Record}
    (horder : ∀ l, (order l).Perm l)
    (hstored : ∀ x ∈ w.graph.closure record.user, ∃ whitelist, w.stored x = .ok whitelist) :
    IsAudit w (.spawn id (decideIn order record))
  | advance (id : TaskId) : IsAudit w (.advance id)
  | proceed (role : Role) : IsAudit w (.proceed role)
  | deliver (role : Role) : IsAudit w (.deliver role none)

variable (w : World σ Bool) (actions : List (Action σ Bool))

/-- The task begins to decide about the record. -/
def Called (id : TaskId) (record : Record) (n : Nat) : Prop :=
  (∃ order, actions[n]? = some (.spawn id (decideIn order record))) ∧
    (w.after actions n).task? id = none

/-- What is promised of decisions at once. -/
structure SharesLoads : Prop where
  /-- The store is asked for each role at most once, and it answers at most once. -/
  asksOnce : ∀ role i j, .asked role ∈ w.eventsAt actions i → .asked role ∈ w.eventsAt actions j →
    i = j
  answersOnce : ∀ role i j answer answer', .answered role answer ∈ w.eventsAt actions i →
    .answered role answer' ∈ w.eventsAt actions j → i = j
  /-- The store is asked only for roles of users of whom there has been a call. -/
  asksWithin : ∀ role n, .asked role ∈ w.eventsAt actions n → ∃ id record m, m < n ∧
    Called w actions id record m ∧ role ∈ w.graph.closure record.user
  /-- A call comes to nothing but the answer of the reference. -/
  exact : ∀ id record m n result, Called w actions id record m → m < n →
    (w.after actions n).result? id = some result → result = .ok (reference w.graph w.stored record)
  /-- A call comes to its answer as soon as the actions that serve it have come round eight times
  for each of its questions. -/
  ends : ∀ id record m n, Called w actions id record m →
    Rounds actions (Action.Serves id (w.graph.closure record.user))
      (8 * ((w.graph.closure record.user).length + 2)) (m + 1) n →
    (w.after actions n).result? id = some (.ok (reference w.graph w.stored record))
  /-- The repetition of a call that has come to `false` waits for no load. -/
  repeatsHit : ∀ id record m n, Called w actions id record m → m < n →
    (w.after actions n).result? id = some (.ok false) → ∀ id' i k role next,
      Called w actions id' record i → n ≤ i → i < k →
        (w.after actions k).task? id' ≠ some ⟨.whitelist role next, .waiting⟩
  /-- Once all calls have ended, repetitions of calls that have come to `false` make the store be
  asked for nothing. -/
  repeatsAskNothing : ∀ n, (∀ id record m, Called w actions id record m → m < n →
      ∃ result, (w.after actions n).result? id = some result) →
    (∀ id record i, Called w actions id record i → n ≤ i → ∃ id' m, m < n ∧
      Called w actions id' record m ∧ (w.after actions n).result? id' = some (.ok false)) →
    ∀ k role, n ≤ k → .asked role ∉ w.eventsAt actions k

variable {w actions}

theorem IsAudit.calm {a : Action σ Bool} (h : IsAudit w a) : a.Calm := by
  cases h with
  | decide horder hstored => exact .spawn (onlyAsks_decideIn _ _)
  | advance id => exact .advance id
  | proceed role => exact .proceed role
  | deliver role => exact .deliver role

variable (w actions) in
/-- Decisions run at once over a graph that can be read and a cache that is empty at first and keeps
its entries. -/
structure AuditRun : Prop where
  new : w.IsNew
  retains : w.cache.retains = true
  readable : w.graphFault = none
  audits : ∀ a ∈ actions, IsAudit w a

variable {id : TaskId} {record : Record} {m n : Nat} {t : Task Bool}

theorem AuditRun.calm (h : AuditRun w actions) : ∀ a ∈ actions, a.Calm :=
  fun a ha => (h.audits a ha).calm

theorem AuditRun.rolesOf (h : AuditRun w actions) (user : Role) :
    w.rolesOf user = .ok (w.graph.closure user) := by
  rw [World.rolesOf, h.readable]

theorem AuditRun.eq_closure (h : AuditRun w actions) {user : Role} {l : List Role}
    (hl : w.steadyAnswers.closure user (.ok l)) : l = w.graph.closure user := by
  have hroles : .ok l = w.rolesOf user := hl
  rw [h.rolesOf] at hroles
  cases hroles
  rfl

theorem AuditRun.called_of_task (h : AuditRun w actions)
    (ht : (w.after actions n).task? id = some t) :
    ∃ record m, m < n ∧ Called w actions id record m := by
  obtain ⟨m, p, hm, hspawn, hunused⟩ := World.spawned_of_task h.new ht
  cases h.audits _ (List.mem_of_getElem? hspawn) with
  | @decide _ order record horder hstored => exact ⟨record, m, hm, ⟨order, hspawn⟩, hunused⟩

/-- A call takes the roles of its user in some order, and the store has all their whitelists. -/
theorem AuditRun.of_spawn (h : AuditRun w actions) {order : List Role → List Role}
    (hspawn : actions[m]? = some (.spawn id (decideIn order record))) :
    (∀ l, (order l).Perm l) ∧
      ∀ x ∈ w.graph.closure record.user, ∃ whitelist, w.stored x = .ok whitelist := by
  have haudit := h.audits _ (List.mem_of_getElem? hspawn)
  generalize hp : decideIn order record = p at haudit
  cases haudit with
  | @decide _ order' record' horder hstored =>
    obtain ⟨huser, rfl⟩ := decideIn_inj hp
    rw [huser]
    exact ⟨horder, hstored⟩

theorem AuditRun.within_decideIn (h : AuditRun w actions) {order : List Role → List Role}
    (horder : ∀ l, (order l).Perm l) :
    (decideIn order record).Within w.steadyAnswers (w.graph.closure record.user)
      ((w.graph.closure record.user).length + 2) :=
  Decision.within_decideIn horder (fun _ hl => h.eq_closure hl) fun _ _ hm => hm

/-! ## What a decision ensures -/

theorem AuditRun.ensures_reference (h : AuditRun w actions) {order : List Role → List Role}
    (hspawn : actions[m]? = some (.spawn id (decideIn order record))) :
    (decideIn order record).Ensures w.steadyAnswers
      (· = .ok (reference w.graph w.stored record)) := by
  obtain ⟨horder, hstored⟩ := h.of_spawn hspawn
  have hclosure (l : List Role) (hl : w.steadyAnswers.closure record.user (.ok l)) (x : Role) :
      x ∈ l ↔ x ∈ w.graph.closure record.user := by
    rw [h.eq_closure hl]
  have hsettle := ensures_decideIn (A := w.steadyAnswers) w.stored record
    (fun l x => (horder l).mem_iff) hclosure (fun l m hm x => List.Perm.mem_iff hm)
    (fun x _ v hv => Eq.symm hv)
  refine hsettle.mono ?_
  rintro result (⟨e, rfl, he⟩ | hsettles)
  · have hroles : .error e = w.rolesOf record.user := he
    rw [h.rolesOf] at hroles
    cases hroles
  · cases result with
    | ok b => rw [eq_reference_of_settles hsettles]
    | error e =>
      obtain ⟨x, hx, herror⟩ := hsettles
      obtain ⟨whitelist, hok⟩ := hstored x hx
      have hanswer : .error e = w.stored x := herror
      rw [hok] at hanswer
      cases hanswer

/-- The answers of the world, without the whitelist of one role. -/
def answersBut (w : World σ Bool) (role : Role) : Answers :=
  { w.steadyAnswers with
    whitelist := fun x answer => answer = w.stored x ∧ ∀ v, answer = .ok v → x ≠ role }

/-- Without the whitelist of one of the roles a decision does not come to `false`: that whitelist
might cover everything. -/
theorem AuditRun.ensures_not_false (h : AuditRun w actions) {order : List Role → List Role}
    (horder : ∀ l, (order l).Perm l) {x : Role} (hx : x ∈ w.graph.closure record.user) :
    (decideIn order record).Ensures (answersBut w x) (· ≠ .ok false) := by
  let full := Whitelist.empty.grant record.resource record.permissions.toList
  have hclosure (l : List Role) (hl : (answersBut w x).closure record.user (.ok l)) (y : Role) :
      y ∈ l ↔ y ∈ w.graph.closure record.user := by
    rw [h.eq_closure hl]
  have hsettle := ensures_decideIn (A := answersBut w x)
    (fun y => if y = x then .ok full else w.stored y) record
    (fun l y => (horder l).mem_iff) hclosure (fun l m hm y => List.Perm.mem_iff hm)
    (fun y _ v hv => by rw [if_neg (hv.2 v rfl), ← hv.1])
  refine hsettle.mono ?_
  rintro result (⟨e, rfl, -⟩ | hsettles) hfalse
  · cases hfalse
  · subst hfalse
    refine Bool.false_ne_true (hsettles.2 fun p hp => ⟨x, hx, full, if_pos rfl, ?_⟩)
    refine covers_iff.2 ⟨record.resource, ?_, Whitelist.permits_grant_iff.2 (Or.inr ⟨rfl, hp⟩)⟩
    exact Resource.mem_lineage_iff.2 (by simp [Resource.isWithin])

/-! ## Answers -/

variable [KeepsAnswers σ]

theorem AuditRun.loadsSucceed (h : AuditRun w actions) (n : Nat) :
    LoadsSucceed w (w.after actions n) := by
  refine World.loadsSucceed_after h.new h.calm (fun id p hp => ?_) n
  cases h.audits _ hp with
  | decide horder hstored => exact ⟨_, _, h.within_decideIn horder, hstored⟩

theorem AuditRun.answering (h : AuditRun w actions) {a : Action σ Bool} (ha : actions[n]? = some a)
    (id : TaskId) : Answering w.steadyAnswers (w.after actions n) id a :=
  World.answering_of_calm h.new h.calm ha (h.loadsSucceed n)

/-- A task that has been called asks for roles of its user alone. -/
theorem AuditRun.within (h : AuditRun w actions) (hcalled : Called w actions id record m)
    (hmn : m < n) : ∃ t left, (w.after actions n).task? id = some t ∧
      t.procedure.Within w.steadyAnswers (w.graph.closure record.user) left := by
  obtain ⟨⟨order, hspawn⟩, hunused⟩ := hcalled
  exact World.within_after h.new (World.task?_succ_of_spawn hspawn hunused)
    (h.within_decideIn (h.of_spawn hspawn).1) hmn fun k a _ _ ha => h.answering ha id

theorem AuditRun.mem_closure (h : AuditRun w actions) (hcalled : Called w actions id record m)
    (hmn : m < n) {role : Role} {next : Whitelist → Procedure Bool} {stage : RequestStage}
    (ht : (w.after actions n).task? id = some ⟨.whitelist role next, stage⟩) :
    role ∈ w.graph.closure record.user := by
  obtain ⟨t, left, ht', hwithin⟩ := h.within hcalled hmn
  rw [ht, Option.some.injEq] at ht'
  subst ht'
  cases left with
  | zero => exact hwithin.elim
  | succ left => exact hwithin.1

theorem AuditRun.exact (h : AuditRun w actions) (hcalled : Called w actions id record m)
    (hmn : m < n) {result : Except Error Bool}
    (hresult : (w.after actions n).result? id = some result) :
    result = .ok (reference w.graph w.stored record) := by
  obtain ⟨⟨order, hspawn⟩, hunused⟩ := hcalled
  obtain ⟨t, ht, hensures⟩ := World.ensures_after h.new
    (World.task?_succ_of_spawn hspawn hunused) (h.ensures_reference hspawn) hmn
    fun k a _ _ ha => h.answering ha id
  exact World.of_result? (Q := (· = .ok (reference w.graph w.stored record))) ht hensures hresult

theorem AuditRun.ends (h : AuditRun w actions) (hcalled : Called w actions id record m)
    (hrounds : Rounds actions (Action.Serves id (w.graph.closure record.user))
      (8 * ((w.graph.closure record.user).length + 2)) (m + 1) n) :
    (w.after actions n).result? id = some (.ok (reference w.graph w.stored record)) := by
  obtain ⟨⟨order, hspawn⟩, hunused⟩ := hcalled
  obtain ⟨result, hresult⟩ := World.result?_of_rounds h.new h.calm h.loadsSucceed
    (World.task?_succ_of_spawn hspawn hunused) rfl (h.within_decideIn (h.of_spawn hspawn).1)
    hrounds
  rw [hresult, h.exact ⟨⟨order, hspawn⟩, hunused⟩ (hrounds.le .own) hresult]

/-! ## Loads -/

theorem AuditRun.asksWithin (h : AuditRun w actions) {role : Role}
    (hasked : .asked role ∈ w.eventsAt actions n) : ∃ id record m, m < n ∧
      Called w actions id record m ∧ role ∈ w.graph.closure record.user := by
  obtain ⟨id, next, htask⟩ := World.waiting_of_asked h.new hasked
  obtain ⟨record, m, hm, hcalled⟩ := h.called_of_task htask
  exact ⟨id, record, m, hm, hcalled, h.mem_closure hcalled hm htask⟩

/-! ## Repetitions -/

/-- A call that comes to `false` has been granted the whitelists of all roles of its user. -/
theorem AuditRun.isResident_of_false (h : AuditRun w actions)
    (hcalled : Called w actions id record m) (hmn : m < n)
    (hresult : (w.after actions n).result? id = some (.ok false)) {x : Role}
    (hx : x ∈ w.graph.closure record.user) : (w.after actions n).cache.isResident x = true := by
  refine Classical.byContradiction fun habsent => ?_
  obtain ⟨⟨order, hspawn⟩, hunused⟩ := hcalled
  -- what is resident stays so, so a role that is absent now has not been granted before
  have hanswering (k : Nat) (a : Action σ Bool) (hk : k < n) (ha : actions[k]? = some a) :
      Answering (answersBut w x) (w.after actions k) id a := by
    obtain ⟨hclosure, hsorted, hgranted, hdenied⟩ := h.answering ha id
    refine ⟨hclosure, hsorted, fun role whitelist hgrant => ?_, fun role e hdeny => ?_⟩
    · refine ⟨hgranted role whitelist hgrant, fun v _ => ?_⟩
      rintro rfl
      cases World.shows_of_mem_events hgrant with
      | granted htask hgen =>
        have hheld := World.isResident_of_held h.new h.retains h.calm htask rfl
        exact habsent (World.isResident_of_le h.new h.calm hheld (Nat.le_of_lt hk))
    · exact ⟨hdenied role e hdeny, fun v hv => by cases hv⟩
  obtain ⟨t, ht, hensures⟩ := World.ensures_after h.new (World.task?_succ_of_spawn hspawn hunused)
    (h.ensures_not_false (h.of_spawn hspawn).1 hx) hmn fun k a _ hk ha => hanswering k a hk ha
  exact World.of_result? (Q := (· ≠ .ok false)) ht hensures hresult rfl

/-- A decision waits for no load if the whitelists of all roles of its user are resident. -/
theorem AuditRun.not_waiting (h : AuditRun w actions) (hcalled : Called w actions id record m)
    (hresident : ∀ x ∈ w.graph.closure record.user,
      (w.after actions m).cache.isResident x = true)
    (hmn : m < n) {role : Role} {next : Whitelist → Procedure Bool} :
    (w.after actions n).task? id ≠ some ⟨.whitelist role next, .waiting⟩ := by
  have hbegin : (w.after actions (m + 1)).task? id ≠ some ⟨.whitelist role next, .waiting⟩ := by
    obtain ⟨⟨order, hspawn⟩, hunused⟩ := hcalled
    rw [World.task?_succ_of_spawn hspawn hunused]
    intro hstart
    cases hstart
  induction hmn with
  | refl => exact hbegin
  | @step n hmn ih =>
    intro hwaiting
    obtain ⟨t, left, ht, -⟩ := h.within hcalled hmn
    cases ha : actions[n]? with
    | none =>
      rw [World.after_succ_of_none ha] at hwaiting
      exact ih hwaiting
    | some a =>
      rw [World.after_succ ha] at hwaiting
      obtain ⟨t', ht', hcase⟩ := World.task?_step ht a
      rw [hwaiting, Option.some.injEq] at ht'
      rcases hcase with rfl | hmoves
      · exact ih (by rw [ht, ht'])
      · obtain ⟨-, rfl, habsent⟩ := World.joined_of_moves hmoves ht'.symm
        have hrole := World.isResident_of_le h.new h.calm
          (hresident role (h.mem_closure hcalled hmn ht)) (Nat.le_of_lt hmn)
        rw [Cache.isResident, habsent] at hrole
        cases hrole

theorem AuditRun.repeatsHit (h : AuditRun w actions) (hcalled : Called w actions id record m)
    (hmn : m < n) (hresult : (w.after actions n).result? id = some (.ok false)) {id' : TaskId}
    {i k : Nat} (hagain : Called w actions id' record i) (hni : n ≤ i) (hik : i < k) {role : Role}
    {next : Whitelist → Procedure Bool} :
    (w.after actions k).task? id' ≠ some ⟨.whitelist role next, .waiting⟩ := by
  refine h.not_waiting hagain (fun x hx => ?_) hik
  exact World.isResident_of_le h.new h.calm (h.isResident_of_false hcalled hmn hresult hx) hni

theorem AuditRun.repeatsAskNothing (h : AuditRun w actions)
    (hover : ∀ id record m, Called w actions id record m → m < n →
      ∃ result, (w.after actions n).result? id = some result)
    (hrepeats : ∀ id record i, Called w actions id record i → n ≤ i → ∃ id' m, m < n ∧
      Called w actions id' record m ∧ (w.after actions n).result? id' = some (.ok false))
    {k : Nat} (hnk : n ≤ k) (role : Role) : .asked role ∉ w.eventsAt actions k := by
  intro hasked
  obtain ⟨id, next, htask⟩ := World.waiting_of_asked h.new hasked
  obtain ⟨record, m, hmk, hcalled⟩ := h.called_of_task htask
  rcases Nat.lt_or_ge m n with hmn | hnm
  · obtain ⟨result, hresult⟩ := hover id record m hcalled hmn
    obtain ⟨t, left, ht, -⟩ := h.within hcalled hmn
    have hend := World.isOver_of_result? ht hresult
    rw [World.over_after h.new ht hend hnk, Option.some.injEq] at htask
    rw [htask] at hend
    cases hend
  · obtain ⟨id', m', hm', hcalled', hfalse⟩ := hrepeats id record m hcalled hnm
    exact h.repeatsHit hcalled' hm' hfalse hcalled hnm hmk htask

/-- Decisions at once share their loads. -/
theorem audits_share_loads (h : AuditRun w actions) : SharesLoads w actions where
  asksOnce _ _ _ hi hj := World.Comes.unique h.new h.retains h.calm h.loadsSucceed
    (World.comes_of_asked hi) (World.comes_of_asked hj)
  answersOnce _ _ _ _ _ hi hj := World.Comes.unique h.new h.retains h.calm h.loadsSucceed
    (World.comes_of_answered hi) (World.comes_of_answered hj)
  asksWithin _ _ hasked := h.asksWithin hasked
  exact _ _ _ _ _ hcalled hmn hresult := h.exact hcalled hmn hresult
  ends _ _ _ _ hcalled hrounds := h.ends hcalled hrounds
  repeatsHit _ _ _ _ hcalled hmn hfalse _ _ _ _ _ hagain hni hik :=
    h.repeatsHit hcalled hmn hfalse hagain hni hik
  repeatsAskNothing _ hover hrepeats _ role hnk := h.repeatsAskNothing hover hrepeats hnk role

end Calls

namespace Concurrent

open Sample SampleRole

/-- No role of the user may modify. -/
def world : World MemoryStore Bool :=
  ⟨graph, none, .grant .empty auditor .data [.select], .new true, {}, ∅⟩

def round : List (Action MemoryStore Bool) :=
  [.advance 1, .advance 2, .proceed user, .proceed auditor, .deliver user none,
    .deliver auditor none]

/-- Two decisions that take the roles in opposite orders. -/
def calls : List (Action MemoryStore Bool) :=
  [.spawn 1 (decideIn id record), .spawn 2 (decideIn List.reverse record)]

/-- When both have come to `false`, the first is repeated. -/
def repetition : List (Action MemoryStore Bool) :=
  [.spawn 3 (decideIn id record), .advance 3, .advance 3, .advance 3, .advance 3, .advance 3]

def steps : List (Action MemoryStore Bool) :=
  calls ++ (List.replicate 32 round).flatten ++ repetition

theorem isAudit_spawn {task : TaskId} {order : List Role → List Role}
    (horder : ∀ l, (order l).Perm l) : IsAudit world (.spawn task (decideIn order record)) :=
  .decide horder fun _ _ => ⟨_, rfl⟩

theorem auditRun : AuditRun world steps where
  new := ⟨⟨true, rfl⟩, rfl⟩
  retains := rfl
  readable := rfl
  audits := by
    have hround : ∀ a ∈ round, IsAudit world a := by
      simp [round, IsAudit.advance, IsAudit.proceed, IsAudit.deliver]
    have hcalls : ∀ a ∈ calls, IsAudit world a := by
      simp [calls, isAudit_spawn, List.reverse_perm]
    have hrepetition : ∀ a ∈ repetition, IsAudit world a := by
      simp [repetition, isAudit_spawn, IsAudit.advance]
    intro a ha
    rw [steps, List.mem_append, List.mem_append, List.mem_flatten] at ha
    rcases ha with (hcall | ⟨l, hl, hmem⟩) | hrepeat
    · exact hcalls a hcall
    · rw [List.eq_of_mem_replicate hl] at hmem
      exact hround a hmem
    · exact hrepetition a hrepeat

theorem mem_round {task : TaskId} (htask : task ∈ [1, 2]) {a : Action MemoryStore Bool}
    (ha : a.Serves task [user, auditor]) : a ∈ round := by
  cases ha with
  | own =>
    obtain rfl | rfl : task = 1 ∨ task = 2 := by simpa using htask
    · simp [round]
    · simp [round]
  | @load role hrole =>
    obtain rfl | rfl : role = user ∨ role = auditor := by simpa using hrole
    · simp [round]
    · simp [round]
  | @landing role hrole =>
    obtain rfl | rfl : role = user ∨ role = auditor := by simpa using hrole
    · simp [round]
    · simp [round]

theorem reference_record : reference world.graph world.stored record = false := by
  have hclosure : world.graph.closure record.user = [user, auditor] := closure_user
  rw [reference, hclosure]
  decide +kernel

def spawned? : Action MemoryStore Bool → Option TaskId
  | .spawn id _ => some id
  | _ => none

theorem call_cases {task : TaskId} {r : Record} {n : Nat} (h : Called world steps task r n) :
    n < 194 ∧ task ∈ [1, 2] ∨ n = 194 ∧ ∃ order, decideIn order r = decideIn id record := by
  have hspawned : ∀ a ∈ steps.zipIdx, spawned? a.1 = none ∨
      a.2 < 194 ∧ spawned? a.1 ∈ [some 1, some 2] ∨ a.2 = 194 := by
    decide +kernel
  obtain ⟨⟨order, hspawn⟩, -⟩ := h
  rcases hspawned ⟨_, n⟩ (List.mk_mem_zipIdx_iff_getElem?.2 hspawn) with
    hnone | ⟨hearly, hfirst⟩ | hlast
  · cases hnone
  · exact Or.inl ⟨hearly, by simpa [spawned?] using hfirst⟩
  · have hthird : steps[194]? = some (.spawn 3 (decideIn id record)) := rfl
    have hlast : n = 194 := hlast
    subst hlast
    rw [hthird, Option.some.injEq, World.Action.spawn.injEq] at hspawn
    exact Or.inr ⟨rfl, order, hspawn.2.symm⟩

theorem called_first : Called world steps 1 record 0 :=
  ⟨⟨id, rfl⟩, by decide +kernel⟩

theorem called_second : Called world steps 2 record 1 :=
  ⟨⟨List.reverse, rfl⟩, by decide +kernel⟩

end Concurrent

open Sample SampleRole Concurrent in
theorem audits_share_loads_concurrent :
    (∀ task ∈ [1, 2], (Concurrent.world.after steps 194).result? task = some (.ok false)) ∧
      ∀ n role, 194 ≤ n → .asked role ∉ Concurrent.world.eventsAt steps n := by
  have hshares := audits_share_loads auditRun
  have hclosure : Concurrent.world.graph.closure record.user = [user, auditor] := closure_user
  have hresult (task : TaskId) (htask : task ∈ [1, 2]) (m : Nat) (hm : m < 2)
      (hcalled : Called Concurrent.world steps task record m) :
      (Concurrent.world.after steps 194).result? task = some (.ok false) := by
    rw [← reference_record]
    refine hshares.ends task record m 194 hcalled ?_
    rw [hclosure]
    exact (World.rounds_of_replicate (fun a => mem_round htask) calls repetition 32).of_le hm
  have hresults : ∀ task ∈ [1, 2],
      (Concurrent.world.after steps 194).result? task = some (.ok false) := by
    simp [hresult 1 (by decide) 0 (by decide) called_first,
      hresult 2 (by decide) 1 (by decide) called_second]
  refine ⟨hresults, fun n role hn => hshares.repeatsAskNothing 194 ?_ ?_ n role hn⟩
  · intro task r m hcalled hm
    obtain ⟨-, htask⟩ | ⟨hlast, -⟩ := call_cases hcalled
    · exact ⟨_, hresults task htask⟩
    · omega
  · intro task r i hcalled hi
    obtain ⟨hearly, -⟩ | ⟨-, order, hsame⟩ := call_cases hcalled
    · omega
    · refine ⟨1, 0, by decide, ⟨⟨order, ?_⟩, called_first.2⟩, hresults 1 (by decide)⟩
      rw [hsame]
      rfl

end AuditTrail.Decision
