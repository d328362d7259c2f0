import AuditTrail.Proofs.Decision.Exactness
import AuditTrail.Proofs.World.Asking

/-!
# One snapshot of each whitelist

Other tasks may change everything between two questions of a decision, so the whitelists that it
sees need not have been in the store, or in the cache, at one time.  But a decision asks its roles
in turn, each of them once, and judges all permissions by what it was told.  Its answer is that of
the reference for these versions of the whitelists.

The roles that are resident when the decision orders its roles come first in that order.  If they
cover the record, the cache has all the answers (`hits_coverAll`), and no load is needed.
-/

namespace AuditTrail

namespace Decision

open Procedure (Answers)
open World (Action AnsweredAt GrantedBetween RunsUnaided)

/-! ## The questions of a decision -/

section Questions

variable {β : Type} {lineage : List Resource} {fits : Whitelist → Bool} {seen : List Whitelist}

theorem asksInTurn_askUntil {unasked : List Role} {f : Option Progress → Procedure β}
    (hnone : (f none).AsksInTurn []) (hsome : ∀ next, (f (some next)).AsksInTurn next.unasked) :
    ((askUntil fits seen unasked).andThen f).AsksInTurn unasked := by
  induction unasked generalizing seen with
  | nil => exact hnone
  | cons x rest ih =>
    refine ⟨rfl, fun w => ?_⟩
    show ((if fits w = true then Procedure.done (some ⟨seen ++ [w], rest⟩)
      else askUntil fits (seen ++ [w]) rest).andThen f).AsksInTurn rest
    split
    · exact hsome ⟨seen ++ [w], rest⟩
    · exact ih

theorem asksInTurn_coverAll (progress : Progress) (ps : List Permission) :
    (coverAll lineage progress ps).AsksInTurn progress.unasked := by
  induction ps generalizing progress with
  | nil => exact trivial
  | cons p ps ih =>
    rw [coverAll]
    split
    · exact ih progress
    · exact asksInTurn_askUntil trivial ih

theorem asksInTurn_amongRoles (record : Record) (roles : List Role) :
    (amongRoles record roles).AsksInTurn roles :=
  asksInTurn_coverAll ⟨[], roles⟩ record.permissions.toList

/-! ## The answers of the cache -/

/-- A whitelist that fits has been seen, or the cache has it for one of the roles. -/
def Available (c : Cache) (seen : List Whitelist) (roles : List Role) (fits : Whitelist → Bool) :
    Prop :=
  (∃ w ∈ seen, fits w = true) ∨
    ∃ x ∈ roles, ∃ entry, c.entry? x = some entry ∧ fits entry.whitelist = true

variable {c : Cache} {residents others : List Role}

theorem Available.seeing {x : Role} {rest : List Role} {entry : Cache.Entry}
    (hentry : c.entry? x = some entry) (h : Available c seen (x :: rest) fits) :
    Available c (seen ++ [entry.whitelist]) rest fits := by
  rcases h with ⟨w, hw, hfits⟩ | ⟨y, hy, e, he, hfits⟩
  · exact Or.inl ⟨w, List.mem_append_left _ hw, hfits⟩
  · rcases List.mem_cons.1 hy with rfl | hy
    · rw [hentry, Option.some.injEq] at he
      subst he
      exact Or.inl ⟨entry.whitelist, by simp, hfits⟩
    · exact Or.inr ⟨y, hy, e, he, hfits⟩

/-- A search for a whitelist that some resident role has ends among the resident roles. -/
theorem hits_askUntil {f : Option Progress → Procedure β} {value : β}
    (hresident : ∀ x ∈ residents, c.isResident x = true)
    (hfits : Available c seen residents fits) (hmiss : ∀ w ∈ seen, fits w = false)
    (hf : ∀ seen' residents', (∀ x ∈ residents', c.isResident x = true) →
      (∀ fits', Available c seen residents fits' → Available c seen' residents' fits') →
      (f (some ⟨seen', residents' ++ others⟩)).Hits c value) :
    ((askUntil fits seen (residents ++ others)).andThen f).Hits c value := by
  induction residents generalizing seen with
  | nil =>
    obtain ⟨w, hw, hfit⟩ | ⟨x, hx, -⟩ := hfits
    · rw [hmiss w hw] at hfit
      cases hfit
    · cases hx
  | cons x rest ih =>
    obtain ⟨entry, hentry⟩ := Option.isSome_iff_exists.1 (hresident x List.mem_cons_self)
    have hrest (y : Role) (hy : y ∈ rest) : c.isResident y = true :=
      hresident y (List.mem_cons_of_mem x hy)
    refine ⟨entry, hentry, ?_⟩
    show ((if fits entry.whitelist = true
      then Procedure.done (some ⟨seen ++ [entry.whitelist], rest ++ others⟩)
      else askUntil fits (seen ++ [entry.whitelist]) (rest ++ others)).andThen f).Hits c value
    split
    · exact hf _ rest hrest fun _ h => h.seeing hentry
    · rename_i hnot
      refine ih hrest (hfits.seeing hentry) (fun w hw => ?_) fun seen' residents' hres hkeep =>
        hf seen' residents' hres fun _ h => hkeep _ (h.seeing hentry)
      rcases List.mem_append.1 hw with hw | hw
      · exact hmiss w hw
      · rw [List.mem_singleton] at hw
        rw [hw]
        exact Bool.eq_false_iff.2 hnot

/-- If the cache has what covers each permission, a decision needs the resident roles alone. -/
theorem hits_coverAll {ps : List Permission} (hresident : ∀ x ∈ residents, c.isResident x = true)
    (h : ∀ p ∈ ps, Available c seen residents (covers lineage p)) :
    (coverAll lineage ⟨seen, residents ++ others⟩ ps).Hits c true := by
  induction ps generalizing seen residents with
  | nil => exact rfl
  | cons p ps ih =>
    have hps (q : Permission) (hq : q ∈ ps) : Available c seen residents (covers lineage q) :=
      h q (List.mem_cons_of_mem p hq)
    rw [coverAll]
    split
    · exact ih hresident hps
    · rename_i hnone
      refine hits_askUntil hresident (h p List.mem_cons_self) (fun w hw => ?_)
        fun seen' residents' hres hkeep => ih hres fun q hq => hkeep _ (hps q hq)
      exact Bool.eq_false_iff.2 fun hcovers => hnone (List.any_eq_true.2 ⟨w, hw, hcovers⟩)

end Questions

/-! ## How far a decision has come -/

variable {σ : Type} [WhitelistStore σ]

section Phases

variable (w : World σ Bool) (actions : List (Action σ Bool)) (id : TaskId)
  (order : List Role → List Role) (record : Record)

/-- The roles of the user, in the order in which the graph lists them at this time. -/
def rolesAt (read : Nat) : List Role := order ((w.after actions read).graph.closure record.user)

/-- At this time the decision is told the roles of its user. -/
structure ToldAt (read : Nat) : Prop where
  action : actions[read]? = some (.advance id)
  task : (w.after actions read).task? id = some (Task.start (decideIn order record))
  readable : (w.after actions read).graphFault = none

/-- At this time the decision puts those roles first that are resident. -/
structure SortsAt (read sort : Nat) : Prop where
  action : actions[sort]? = some (.advance id)
  task : (w.after actions sort).task? id =
    some (Task.start (.residentFirst (rolesAt w actions order record read) (amongRoles record)))

/-- For each role whose whitelist the task has been handed, the version is that whitelist. -/
def Versions (start finish : Nat) (version : Role → Whitelist) : Prop :=
  ∀ n role whitelist, start < n → n < finish →
    .granted id role whitelist ∈ w.eventsAt actions n → version role = whitelist

/-- How far a decision that was called at `start` has come. -/
inductive Stands (start n : Nat) (t : Task Bool) : Prop
  | called (h : t = Task.start (decideIn order record))
  | refused {e} (h : t = Task.start (.failed e))
  | told {read} (hread : start < read) (hn : read < n)
    (htold : ToldAt w actions id order record read)
    (h : t = Task.start
      (.residentFirst (rolesAt w actions order record read) (amongRoles record)))
  | asking {read sort rest} (hread : start < read) (hsort : read < sort) (hn : sort < n)
    (htold : ToldAt w actions id order record read)
    (hsorts : SortsAt w actions id order record read sort)
    (hrest : rest <:+ (w.after actions sort).residentFirst (rolesAt w actions order record read))
    (h : t.procedure.AsksInTurn rest)

end Phases

section Run

variable {w : World σ Bool} {actions : List (Action σ Bool)} {id : TaskId}
  {order : List Role → List Role} {record : Record} {start m n : Nat} {t t' : Task Bool}

theorem Stands.succ (h : Stands w actions id order record start n t) :
    Stands w actions id order record start (n + 1) t := by
  cases h with
  | called h => exact .called h
  | refused h => exact .refused h
  | told hread hn htold h => exact .told hread (Nat.lt_succ_of_lt hn) htold h
  | asking hread hsort hn htold hsorts hrest h =>
    exact .asking hread hsort (Nat.lt_succ_of_lt hn) htold hsorts hrest h

theorem Stands.of_moves {a : Action σ Bool} (hw : w.IsNew) (hstart : start < n)
    (ha : actions[n]? = some a) (htask : (w.after actions n).task? id = some t)
    (hmoves : (w.after actions n).Moves id a t t')
    (h : Stands w actions id order record start n t) :
    Stands w actions id order record start (n + 1) t' := by
  have hwait : World.WaitersWait (w.after actions n) := World.waitersWait_after hw
  cases h with
  | called h =>
    subst h
    generalize ht : Task.start (decideIn order record) = t at hmoves htask
    cases hmoves with
    | @toldRoles user next stage roles hroles =>
      cases ht
      rw [World.rolesOf] at hroles
      split at hroles
      · cases hroles
      · rename_i hreadable
        cases hroles
        exact .told hstart (Nat.lt_succ_self n) ⟨ha, htask, hreadable⟩ rfl
    | refusedRoles => exact .refused rfl
    | received hflight hid =>
      obtain ⟨next, rfl⟩ := hwait.eq_waiting htask hflight hid
      cases ht
    | _ => cases ht
  | refused h =>
    subst h
    generalize ht : Task.start (.failed _) = t at hmoves htask
    cases hmoves with
    | received hflight hid =>
      obtain ⟨next, rfl⟩ := hwait.eq_waiting htask hflight hid
      cases ht
    | _ => cases ht
  | told hread hn htold h =>
    subst h
    generalize ht : Task.start (.residentFirst _ (amongRoles record)) = t at hmoves htask
    cases hmoves with
    | sorted =>
      cases ht
      exact .asking hread hn (Nat.lt_succ_self n) htold ⟨ha, htask⟩ (List.suffix_refl _)
        (asksInTurn_amongRoles record _)
    | received hflight hid =>
      obtain ⟨next, rfl⟩ := hwait.eq_waiting htask hflight hid
      cases ht
    | _ => cases ht
  | asking hread hsort hn htold hsorts hrest h =>
    rcases World.asksInTurn_of_moves hwait htask hmoves h with h' | ⟨role, rest', -, rfl, h', -⟩
    · exact .asking hread hsort (Nat.lt_succ_of_lt hn) htold hsorts hrest h'
    · exact .asking hread hsort (Nat.lt_succ_of_lt hn) htold hsorts
        ((List.suffix_cons role rest').trans hrest) h'

theorem stands_after (hw : w.IsNew)
    (hspawn : actions[start]? = some (.spawn id (decideIn order record)))
    (hunused : (w.after actions start).task? id = none) (hn : start < n) :
    ∃ t, (w.after actions n).task? id = some t ∧
      Stands w actions id order record start n t := by
  refine World.after_induction_from (P := fun k (v : World σ Bool) => ∃ t, v.task? id = some t ∧
    Stands w actions id order record start k t) (m := start + 1) ?_ ?_ ?_ hn
  · exact ⟨_, World.task?_succ_of_spawn hspawn hunused, .called rfl⟩
  · rintro k - - ⟨t, ht, hstands⟩
    exact ⟨t, ht, hstands.succ⟩
  · rintro k a hk ha ⟨t, ht, hstands⟩
    obtain ⟨t', ht', rfl | hmoves⟩ := World.task?_step ht a
    · exact ⟨t', ht', hstands.succ⟩
    · exact ⟨t', ht', hstands.of_moves hw hk ha ht hmoves⟩

/-! ## Each role once, the resident ones first -/

theorem nodup_rolesAt (horder : ∀ l, (order l).Perm l) (read : Nat) :
    (rolesAt w actions order record read).Nodup :=
  (horder _).nodup_iff.2 (RoleGraph.nodup_closure _ _)

theorem mem_rolesAt_iff (horder : ∀ l, (order l).Perm l) {read : Nat} {x : Role} :
    x ∈ rolesAt w actions order record read ↔
      x ∈ (w.after actions read).graph.closure record.user :=
  (horder _).mem_iff

/-- A decision that asks for a whitelist has put its roles in order, and has the last of them before
it, each of them once. -/
theorem Stands.asks (horder : ∀ l, (order l).Perm l)
    (h : Stands w actions id order record start n t) {role : Role}
    {next : Whitelist → Procedure Bool} {stage : RequestStage}
    (ht : t = ⟨.whitelist role next, stage⟩) :
    ∃ read sort roles, start < read ∧ read < sort ∧ sort < n ∧
      ToldAt w actions id order record read ∧ SortsAt w actions id order record read sort ∧
      roles <:+ (w.after actions sort).residentFirst (rolesAt w actions order record read) ∧
      roles.Nodup ∧ t.procedure.AsksInTurn roles := by
  cases h with
  | called h =>
    rw [ht] at h
    cases h
  | refused h =>
    rw [ht] at h
    cases h
  | told hread hn htold h =>
    rw [ht] at h
    cases h
  | @asking read sort rest hread hsort hn htold hsorts hrest h =>
    refine ⟨read, sort, rest, hread, hsort, hn, htold, hsorts, hrest, hrest.sublist.nodup ?_, h⟩
    exact (World.residentFirst_perm _ _).nodup_iff.2 (nodup_rolesAt horder read)

theorem task?_succ_of_sorts {read sort : Nat} (h : SortsAt w actions id order record read sort) :
    (w.after actions (sort + 1)).task? id = some (Task.start (amongRoles record
      ((w.after actions sort).residentFirst (rolesAt w actions order record read)))) := by
  rw [World.after_succ h.action, World.step]
  simp [World.advance, h.task, Task.start, World.residentFirst, World.task?_resume]

/-- Of a sequence in two parts, all of the first part comes before what is not in it. -/
theorem mem_of_append_eq {α : Type} {first second before rest : List α} {x y : α}
    (h : first ++ second = before ++ y :: rest) (hx : x ∈ first) (hy : y ∉ first) :
    x ∈ before := by
  rcases List.append_eq_append_iff.1 h with ⟨middle, rfl, -⟩ | ⟨middle, rfl, hmiddle⟩
  · exact List.mem_append_left _ hx
  · cases middle with
    | nil => simpa using hx
    | cons z zs =>
      cases hmiddle
      exact absurd (by simp) hy

theorem granted_of_resident (hw : w.IsNew) (horder : ∀ l, (order l).Perm l) {read sort : Nat}
    (hsorts : SortsAt w actions id order record read sort) (hn : sort < n) {x y : Role}
    (hx : x ∈ (w.after actions read).graph.closure record.user)
    (hresident : (w.after actions sort).cache.isResident x = true)
    (habsent : (w.after actions sort).cache.isResident y = false)
    (hasked : .consulted id y ∈ w.eventsAt actions n) :
    GrantedBetween w actions id x (sort + 1) n := by
  obtain ⟨t, told, rest, ht, hroles, hasks, htold⟩ :=
    World.asked_after hw (task?_succ_of_sorts hsorts) (asksInTurn_amongRoles record _) hn
  obtain ⟨a, -, hshows⟩ := World.mem_eventsAt_iff.1 hasked
  cases hshows with
  | consulted htask =>
    rw [htask, Option.some.injEq] at ht
    subst ht
    obtain ⟨left, rfl, -⟩ := Procedure.asksInTurn_whitelist_iff.1 hasks
    rw [World.residentFirst, List.partition_eq_filter_filter] at hroles
    refine htold x (mem_of_append_eq hroles ?_ ?_)
    · exact List.mem_filter.2 ⟨(mem_rolesAt_iff horder).2 hx, hresident⟩
    · intro hy
      rw [(List.mem_filter.1 hy).2] at habsent
      cases habsent

section Called

variable (hw : w.IsNew) (horder : ∀ l, (order l).Perm l)
  (hspawn : actions[start]? = some (.spawn id (decideIn order record)))
  (hunused : (w.after actions start).task? id = none)

include hw horder hspawn hunused

theorem asks_of_consulted {role : Role} (hn : start < n)
    (hasked : .consulted id role ∈ w.eventsAt actions n) :
    ∃ read sort, start < read ∧ read < sort ∧ sort < n ∧ ToldAt w actions id order record read ∧
      SortsAt w actions id order record read sort ∧
      role ∈ (w.after actions read).graph.closure record.user := by
  obtain ⟨a, -, hshows⟩ := World.mem_eventsAt_iff.1 hasked
  cases hshows with
  | consulted htask =>
    obtain ⟨t, ht, hstands⟩ := stands_after hw hspawn hunused hn
    rw [htask, Option.some.injEq] at ht
    obtain ⟨read, sort, roles, hread, hsort, hlast, htold, hsorts, hroles, -, hasks⟩ :=
      hstands.asks horder ht.symm
    subst ht
    obtain ⟨rest, rfl, -⟩ := Procedure.asksInTurn_whitelist_iff.1 hasks
    refine ⟨read, sort, hread, hsort, hlast, htold, hsorts, ?_⟩
    exact (mem_rolesAt_iff horder).1 (World.mem_residentFirst.1 (hroles.mem (by simp)))

/-- Once a role has answered the decision, it is not asked again. -/
theorem task?_ne_of_answered {role : Role} (hanswered : AnsweredAt w actions id role m)
    (hm : start < m) (hmn : m < n) {next : Whitelist → Procedure Bool} {stage : RequestStage} :
    (w.after actions n).task? id ≠ some ⟨.whitelist role next, stage⟩ := by
  obtain ⟨next', stage', htask⟩ := World.task?_of_answered hw hanswered
  obtain ⟨t, ht, hstands⟩ := stands_after hw hspawn hunused hm
  rw [ht, Option.some.injEq] at htask
  obtain ⟨-, -, roles, -, -, -, -, -, -, hnodup, hasks⟩ := hstands.asks horder htask
  exact World.not_asks_again hw ht hasks hnodup hanswered hmn

/-! ## One version of each whitelist -/

/-- The decision is handed one whitelist of each role. -/
theorem granted_unique {role : Role} {v v' : Whitelist} (hm : start < m) (hn : start < n)
    (hv : .granted id role v ∈ w.eventsAt actions m)
    (hv' : .granted id role v' ∈ w.eventsAt actions n) : v = v' := by
  obtain ⟨a, ha, hshows⟩ := World.mem_eventsAt_iff.1 hv
  obtain ⟨a', ha', hshows'⟩ := World.mem_eventsAt_iff.1 hv'
  cases hshows with
  | granted htask hgen =>
    cases hshows' with
    | granted htask' hgen' =>
      rcases Nat.lt_trichotomy m n with hlt | rfl | hlt
      · exact absurd htask' (task?_ne_of_answered hw horder hspawn hunused (Or.inl ⟨_, hv⟩) hm hlt)
      · rw [htask] at htask'
        cases htask'
        rfl
      · exact absurd htask (task?_ne_of_answered hw horder hspawn hunused (Or.inl ⟨_, hv'⟩) hn hlt)

theorem exists_versions (finish : Nat) :
    ∃ version, Versions w actions id start finish version := by
  have hone (role : Role) : ∃ v, ∀ n whitelist, start < n → n < finish →
      .granted id role whitelist ∈ w.eventsAt actions n → v = whitelist := by
    by_cases h : ∃ m v, start < m ∧ .granted id role v ∈ w.eventsAt actions m
    · obtain ⟨m, v, hm, hv⟩ := h
      exact ⟨v, fun n whitelist hn _ hgrant =>
        granted_unique hw horder hspawn hunused hm hn hv hgrant⟩
    · exact ⟨∅, fun n whitelist hn _ hgrant => absurd ⟨n, whitelist, hn, hgrant⟩ h⟩
  choose version hversion using hone
  exact ⟨version, fun n role whitelist => hversion role n whitelist⟩

end Called

/-- Answers that agree with these versions. -/
def versionAnswers (version : Role → Whitelist) : Answers where
  closure _ _ := True
  sorted l m := ∀ x, x ∈ m ↔ x ∈ l
  whitelist x answer := ∀ v, answer = .ok v → version x = v

theorem ensures_versions {version : Role → Whitelist} (graph : RoleGraph) {roles : List Role}
    (hroles : ∀ x, x ∈ roles ↔ x ∈ graph.closure record.user) :
    (Procedure.residentFirst roles (amongRoles record)).Ensures (versionAnswers version)
      fun result => ∀ b, result = .ok b →
        b = reference graph (fun x => .ok (version x)) record := by
  intro sorted hsorted
  have hversion (x : Role) (_ : x ∈ graph.closure record.user) (v : Whitelist)
      (hv : (versionAnswers version).whitelist x (.ok v)) :
      (.ok (version x) : Except Error Whitelist) = .ok v := by
    rw [hv v rfl]
  refine (ensures_amongRoles record (fun x => (hsorted x).trans (hroles x)) hversion).mono ?_
  rintro result hsettles b rfl
  exact eq_reference_of_settles hsettles

theorem eq_reference_of_versions (hw : w.IsNew) (horder : ∀ l, (order l).Perm l)
    {read finish : Nat} (hread : start < read) (hfinish : read < finish)
    (htold : ToldAt w actions id order record read) {version : Role → Whitelist}
    (hversion : Versions w actions id start finish version) {b : Bool}
    (hdone : (w.after actions finish).result? id = some (.ok b)) :
    b = reference (w.after actions read).graph (fun x => .ok (version x)) record := by
  have hasks : (w.after actions (read + 1)).task? id = some (Task.start
      (.residentFirst (rolesAt w actions order record read) (amongRoles record))) := by
    have hroles : (w.after actions read).rolesOf record.user =
        .ok ((w.after actions read).graph.closure record.user) := by
      rw [World.rolesOf, htold.readable]
    rw [World.after_succ htold.action, World.step, World.advance_of_closure htold.task hroles,
      World.task?_resume, if_pos rfl]
    rfl
  have hanswering (k : Nat) (a : Action σ Bool) (hk : read + 1 ≤ k) (hkf : k < finish)
      (ha : actions[k]? = some a) :
      World.Answering (versionAnswers version) (w.after actions k) id a := by
    refine ⟨fun _ => trivial, fun l x => World.mem_residentFirst, ?_, fun role e _ v hv => ?_⟩
    · rintro role whitelist hgrant v hv
      cases hv
      rw [← World.eventsAt_of_some ha] at hgrant
      exact hversion k role whitelist (by omega) hkf hgrant
    · cases hv
  obtain ⟨t, ht, hensures⟩ := World.ensures_after hw hasks
    (ensures_versions (w.after actions read).graph fun x => mem_rolesAt_iff horder) hfinish
    hanswering
  exact World.of_result? ht hensures hdone b rfl

theorem Stands.told_of_done (h : Stands w actions id order record start n t)
    (ht : (w.after actions n).task? id = some t) {b : Bool}
    (hdone : (w.after actions n).result? id = some (.ok b)) :
    ∃ read, start < read ∧ read < n ∧ ToldAt w actions id order record read := by
  rw [World.result?, ht] at hdone
  cases h with
  | called h =>
    subst h
    cases hdone
  | refused h =>
    subst h
    cases hdone
  | told hread hn htold h => exact ⟨_, hread, hn, htold⟩
  | asking hread hsort hn htold hsorts hrest h =>
    exact ⟨_, hread, Nat.lt_trans hsort hn, htold⟩

/-! ## A decision that the cache can make -/

/-- Each permission is covered by the whitelist that the cache has for some role of the user. -/
def CoveredInCache (v : World σ Bool) (record : Record) : Prop :=
  ∀ p ∈ record.permissions, ∃ x ∈ v.graph.closure record.user, ∃ entry,
    v.cache.entry? x = some entry ∧ covers record.resource.lineage p entry.whitelist = true

omit [WhitelistStore σ] in
theorem hits_amongRoles {v : World σ Bool} (horder : ∀ l, (order l).Perm l)
    (hcovered : CoveredInCache v record) :
    (amongRoles record (v.residentFirst (order (v.graph.closure record.user)))).Hits v.cache
      true := by
  rw [World.residentFirst, List.partition_eq_filter_filter]
  refine hits_coverAll (fun x hx => (List.mem_filter.1 hx).2) fun p hp => ?_
  obtain ⟨x, hx, entry, hentry, hcovers⟩ := hcovered p hp
  refine Or.inr ⟨x, List.mem_filter.2 ⟨(horder _).mem_iff.2 hx, ?_⟩, entry, hentry, hcovers⟩
  exact Option.isSome_of_eq_some hentry

theorem runsUnaided_decideIn {v : World σ Bool} (refusal : Role → Option Error) (id : TaskId)
    (horder : ∀ l, (order l).Perm l) (hreadable : v.graphFault = none) (hdate : v.UpToDate)
    (hcovered : CoveredInCache v record) :
    RunsUnaided refusal id (v.resume id (decideIn order record)) true := by
  have htask (u : World σ Bool) (p : Procedure Bool) :
      (u.resume id p).task? id = some (Task.start p) := by
    rw [World.task?_resume, if_pos rfl]
  have hroles : (v.resume id (decideIn order record)).rolesOf record.user =
      .ok (v.graph.closure record.user) := by
    simp [World.rolesOf, World.resume, World.setTask, hreadable]
  refine .of_resume (htask v _) (World.advance_of_closure (htask v _) hroles) ?_
  refine .of_resume (q := amongRoles record (v.residentFirst (order (v.graph.closure record.user))))
    (htask _ _) ?_ ?_
  · rw [World.advance, htask]
    rfl
  · exact .of_hits (htask _ _) hdate (hits_amongRoles horder hcovered)

end Run

/-! ## The promises -/

/-- What holds of a decision that is called at `start`, whatever else happens meanwhile. -/
structure OneSnapshot (w : World σ Bool) (actions : List (Action σ Bool)) (id : TaskId)
    (order : List Role → List Role) (record : Record) (start : Nat) : Prop where
  /-- It asks for the whitelists of the roles of its user alone, and has put those roles in order
  before. -/
  asks : ∀ n role, start < n → .consulted id role ∈ w.eventsAt actions n →
    ∃ read sort, start < read ∧ read < sort ∧ sort < n ∧ ToldAt w actions id order record read ∧
      SortsAt w actions id order record read sort ∧
      role ∈ (w.after actions read).graph.closure record.user
  /-- A role that has answered, by a whitelist or an error, is not asked again. -/
  once : ∀ m n role, start < m → m < n → AnsweredAt w actions id role m →
    .consulted id role ∉ w.eventsAt actions n
  /-- What it is handed is a whitelist that the store gave for the role. -/
  loaded : ∀ n role whitelist, start < n → .granted id role whitelist ∈ w.eventsAt actions n →
    ∃ asked landed, landed < n ∧ World.LoadGives w actions role whitelist asked landed
  /-- A role that is not resident when the roles are put in order comes after all that are. -/
  first : ∀ read sort n x y, SortsAt w actions id order record read sort → sort < n →
    x ∈ (w.after actions read).graph.closure record.user →
    (w.after actions sort).cache.isResident x = true →
    (w.after actions sort).cache.isResident y = false →
    .consulted id y ∈ w.eventsAt actions n → GrantedBetween w actions id x (sort + 1) n
  /-- There are versions of the whitelists, one of each role, that are all the decision was handed,
  and its value is that of the reference for any such versions. -/
  value : ∀ finish b, start < finish → (w.after actions finish).result? id = some (.ok b) →
    ∃ read, start < read ∧ read < finish ∧ ToldAt w actions id order record read ∧
      (∃ version, Versions w actions id start finish version) ∧
      ∀ version, Versions w actions id start finish version →
        b = reference (w.after actions read).graph (fun x => .ok (version x)) record
  /-- Where the cache can make the decision, the answer is `true` and no load is needed, although
  all loads may fail. -/
  hit : (w.after actions start).graphFault = none → (w.after actions start).UpToDate →
    CoveredInCache (w.after actions start) record → ∀ refusal,
      RunsUnaided refusal id ((w.after actions start).resume id (decideIn order record)) true

theorem one_snapshot {w : World σ Bool} {actions : List (Action σ Bool)} {id : TaskId}
    {order : List Role → List Role} {record : Record} {start : Nat} (hw : w.IsNew)
    (horder : ∀ l, (order l).Perm l)
    (hspawn : actions[start]? = some (.spawn id (decideIn order record)))
    (hunused : (w.after actions start).task? id = none) :
    OneSnapshot w actions id order record start where
  asks n role hn hasked := asks_of_consulted hw horder hspawn hunused hn hasked
  once m n role hm hmn hanswered hasked := by
    obtain ⟨a, -, hshows⟩ := World.mem_eventsAt_iff.1 hasked
    cases hshows with
    | consulted htask =>
      exact task?_ne_of_answered hw horder hspawn hunused hanswered hm hmn htask
  loaded n role whitelist hn hgrant := by
    have hbegin : ¬ (w.after actions start).MidRequest id := by
      rintro ⟨r, next, stage, htask, -⟩
      rw [hunused] at htask
      cases htask
    obtain ⟨asked, landed, hlanded, hgives, -⟩ :=
      World.loaded_of_granted hw hbegin (Nat.le_of_lt hn) hgrant
    exact ⟨asked, landed, hlanded, hgives⟩
  first read sort n x y hsorts hn hx hresident habsent hasked :=
    granted_of_resident hw horder hsorts hn hx hresident habsent hasked
  value finish b hfinish hdone := by
    obtain ⟨t, ht, hstands⟩ := stands_after hw hspawn hunused hfinish
    obtain ⟨read, hread, hlast, htold⟩ := hstands.told_of_done ht hdone
    exact ⟨read, hread, hlast, htold, exists_versions hw horder hspawn hunused finish,
      fun version hversion => eq_reference_of_versions hw horder hread hlast htold hversion hdone⟩
  hit hreadable hdate hcovered refusal :=
    runsUnaided_decideIn refusal id horder hreadable hdate hcovered

namespace Warm

open Sample SampleRole

def world : World MemoryStore Bool :=
  ⟨graph, none, .grant .empty auditor .data [.select, .modify], .new true, {}, ∅⟩

/-- The auditor's whitelist is resident when the decision is called.  The store loses it while the
decision compares the stamp. -/
def steps : List (Action MemoryStore Bool) :=
  [.spawn 1 ((Procedure.whitelistOf auditor).andThen fun _ => .done true), .advance 1,
    .proceed auditor, .proceed auditor, .proceed auditor, .proceed auditor, .deliver auditor none,
    .spawn 2 (decideIn List.reverse record), .advance 2, .advance 2,
    .advance 2, .changeStore .empty, .advance 2, .advance 2]

theorem graph_after (n : Nat) : (world.after steps n).graph = graph :=
  World.graph_after (by simp [steps]) n

theorem graphFault_after_seven : (world.after steps 7).graphFault = none := by decide +kernel

theorem entry?_after_seven (role : Role) :
    (world.after steps 7).cache.entry? role =
      if auditor = role then some ⟨⟨0, 0⟩, exempt⟩ else none := by
  have hresident : (world.after steps 7).cache.resident =
      (∅ : Std.ExtTreeMap Role Cache.Entry).insert auditor ⟨⟨0, 0⟩, exempt⟩ := by
    decide +kernel
  rw [Cache.entry?, hresident]
  simp [Std.ExtTreeMap.getElem?_insert]

theorem upToDate_after_seven : (world.after steps 7).UpToDate := by
  intro role entry hentry
  rw [entry?_after_seven] at hentry
  split at hentry
  · rename_i hrole
    cases hentry
    rw [← hrole]
    decide +kernel
  · cases hentry

theorem coveredInCache_after_seven : CoveredInCache (world.after steps 7) record := by
  have hall : ∀ p ∈ record.permissions.toList, covers record.resource.lineage p exempt = true := by
    decide +kernel
  intro p hp
  refine ⟨auditor, ?_, ⟨⟨0, 0⟩, exempt⟩, by rw [entry?_after_seven, if_pos rfl], hall p hp⟩
  have hmem : auditor ∈ graph.closure user := by
    rw [closure_user]
    simp
  rw [graph_after]
  exact hmem

theorem after_nine :
    world.after steps 9 = (world.after steps 8).resume 2
      (.residentFirst [auditor, user] (amongRoles record)) := by
  have htask : (world.after steps 8).task? 2 =
      some (Task.start (decideIn List.reverse record)) :=
    World.task?_succ_of_spawn rfl (by decide +kernel)
  have hroles : (world.after steps 8).rolesOf user = .ok [user, auditor] := by
    have hfault : (world.after steps 8).graphFault = none := by decide +kernel
    rw [World.rolesOf, hfault, graph_after, closure_user]
  rw [World.after_succ (a := .advance 2) rfl, World.step]
  exact World.advance_of_closure htask hroles

theorem result?_after : (world.after steps 14).result? 2 = some (.ok true) := by
  rw [World.after_eq_run_drop (m := 9) (by decide), after_nine]
  decide +kernel

end Warm

open Sample SampleRole Warm in
theorem one_snapshot_warm :
    (∃ version, Versions Warm.world steps 2 7 14 version ∧
      true = reference graph (fun x => .ok (version x)) record) ∧
      RunsUnaided (fun _ => some (.store (.stated "offline"))) 2
        ((Warm.world.after steps 7).resume 2 (decideIn List.reverse record)) true := by
  have h : OneSnapshot Warm.world steps 2 List.reverse record 7 :=
    one_snapshot ⟨⟨true, rfl⟩, rfl⟩ List.reverse_perm rfl (by decide +kernel)
  obtain ⟨read, -, -, -, ⟨version, hversion⟩, hvalue⟩ := h.value 14 true (by decide) result?_after
  refine ⟨⟨version, hversion, ?_⟩,
    h.hit graphFault_after_seven upToDate_after_seven coveredInCache_after_seven _⟩
  rw [← Warm.graph_after read]
  exact hvalue version hversion

end Decision
end AuditTrail
