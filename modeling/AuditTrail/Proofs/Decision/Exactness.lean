import AuditTrail.Proofs.Decision.Coverage
import AuditTrail.Proofs.World.Request

/-!
# Exactness of a decision

A decision that runs alone ends.  Its value tells whether every permission of the record is covered,
and neither the order of the roles, nor what the cache holds, nor a load that fails can change that:
the most a failing load can do is to end the decision with an error.
-/

namespace AuditTrail

namespace World

open Procedure (Answers)

variable {σ ρ : Type} [WhitelistStore σ] {refusal : Role → Option Error} {id : TaskId}
  {w start v : World σ ρ}

/-- The answers that a task gets when it begins in `w` and runs alone from `start` on. -/
def aloneAnswers (refusal : Role → Option Error) (id : TaskId) (w start : World σ ρ) : Answers where
  closure user answer := answer = w.rolesOf user
  sorted l m := ∀ x, x ∈ m ↔ x ∈ l
  whitelist role
    | .ok whitelist => w.stored role = .ok whitelist
    | .error _ => w.LoadFails refusal role ∧ w.Lacks role ∧ IsDenied refusal id start role

/-- A procedure that only asks comes to a result when it runs alone, and to one that it ensures. -/
theorem leads_of_ensures [KeepsAnswers σ] {Q : Except Error ρ → Prop} {p : Procedure ρ}
    (hasks : p.OnlyAsks) (h : p.Ensures (aloneAnswers refusal id w start) Q)
    (hv : Undisturbed w v) (hfrom : Leads refusal id start v)
    (htask : v.task? id = some (Task.start p)) :
    ∃ v' result, Leads refusal id v v' ∧ v'.result? id = some result ∧ Q result := by
  induction p generalizing v with
  | done value => exact ⟨v, .ok value, Leads.refl v, by rw [result?, htask]; rfl, h⟩
  | failed e => exact ⟨v, .error e, Leads.refl v, by rw [result?, htask]; rfl, h⟩
  | closure user next ih =>
    cases hroles : v.rolesOf user with
    | ok roles =>
      have hnext : nextAlone refusal id v = v.resume id (next roles) := by
        simp [nextAlone, htask, Task.start, advance, hroles]
      have hallowed : (aloneAnswers refusal id w start).closure user (.ok roles) := by
        rw [← hroles]
        exact hv.rolesOf user
      obtain ⟨v', result, hleads, hrest⟩ := ih roles (hasks roles) (h.1 roles hallowed)
        (hv.resume (next roles)) (hfrom.trans (Leads.of_next hnext))
        (by rw [task?_resume, if_pos rfl])
      exact ⟨v', result, (Leads.of_next hnext).trans hleads, hrest⟩
    | error e =>
      have hnext : nextAlone refusal id v = v.resume id (.failed e) := by
        simp [nextAlone, htask, Task.start, advance, hroles]
      have hallowed : (aloneAnswers refusal id w start).closure user (.error e) := by
        rw [← hroles]
        exact hv.rolesOf user
      refine ⟨_, .error e, Leads.of_next hnext, ?_, h.2 e hallowed⟩
      rw [result?, task?_resume, if_pos rfl]
      rfl
  | residentFirst roles next ih =>
    have hnext : nextAlone refusal id v = v.resume id (next (v.residentFirst roles)) := by
      simp [nextAlone, htask, Task.start, advance, residentFirst]
    obtain ⟨v', result, hleads, hrest⟩ := ih (v.residentFirst roles) (hasks _)
      (h _ fun x => mem_residentFirst) (hv.resume _) (hfrom.trans (Leads.of_next hnext))
      (by rw [task?_resume, if_pos rfl])
    exact ⟨v', result, (Leads.of_next hnext).trans hleads, hrest⟩
  | whitelist role next ih =>
    obtain ⟨u, hu, hundisturbed, ⟨whitelist, hstored, hgoes⟩ |
      ⟨hfails, hlacks, hdenied, e, hfailed⟩⟩ := hv.ends refusal htask
    · obtain ⟨v', result, hleads, hrest⟩ := ih whitelist (hasks whitelist)
        (h.1 whitelist hstored) hundisturbed (hfrom.trans hu) hgoes
      exact ⟨v', result, hu.trans hleads, hrest⟩
    · refine ⟨u, .error e, hu, ?_, h.2 e ⟨hfails, hlacks, hdenied.of_leads hfrom⟩⟩
      rw [result?, hfailed]
      rfl
  | setup next ih => exact hasks.elim
  | append line next ih => exact hasks.elim
  | bump scope next ih => exact hasks.elim
  | discard scope next ih => exact hasks.elim

end World

namespace Decision

open World (Returns IsDenied)

theorem onlyAsks_askUntil (fits : Whitelist → Bool) (seen : List Whitelist) (roles : List Role) :
    (askUntil fits seen roles).OnlyAsks := by
  induction roles generalizing seen with
  | nil => exact trivial
  | cons x rest ih =>
    intro w
    show (if fits w = true then Procedure.done (some ⟨seen ++ [w], rest⟩)
      else askUntil fits (seen ++ [w]) rest).OnlyAsks
    split
    · exact trivial
    · exact ih (seen ++ [w])

theorem onlyAsks_coverAll (lineage : List Resource) (progress : Progress) (ps : List Permission) :
    (coverAll lineage progress ps).OnlyAsks := by
  induction ps generalizing progress with
  | nil => exact trivial
  | cons p ps ih =>
    rw [coverAll]
    split
    · exact ih progress
    · refine (onlyAsks_askUntil _ _ _).andThen fun found => ?_
      cases found with
      | none => exact trivial
      | some next => exact ih next

theorem onlyAsks_decideIn (order : List Role → List Role) (record : Record) :
    (decideIn order record).OnlyAsks :=
  fun _ sorted => onlyAsks_coverAll record.resource.lineage ⟨[], sorted⟩ record.permissions.toList

section Exactness

variable {σ : Type} [WhitelistStore σ] {w : World σ Bool} {refusal : Role → Option Error}
  {id : TaskId} {start : World σ Bool} {order : List Role → List Role} {record : Record}

/-- Every permission of the record is exempt for some role of its user on some scope around its
resource. -/
def Exempt (w : World σ Bool) (record : Record) : Prop :=
  ∀ p ∈ record.permissions, ∃ x scope whitelist, w.graph.Reaches record.user x ∧
    record.resource.isWithin scope = true ∧ w.stored x = .ok whitelist ∧
    whitelist.permits scope p = true

/-- What is known of a result: a value is exact, and an error is that of the graph or comes from a
failing load of a role for which the cache has nothing up to date. -/
def Explained (refusal : Role → Option Error) (id : TaskId) (w start : World σ Bool)
    (record : Record) : Except Error Bool → Prop
  | .ok b => b = true ↔ Exempt w record
  | .error e => w.rolesOf record.user = .error e ∨
    ∃ x, w.graph.Reaches record.user x ∧ w.LoadFails refusal x ∧ w.Lacks x ∧
      IsDenied refusal id start x

theorem ensures_explained (horder : ∀ l x, x ∈ order l ↔ x ∈ l) :
    (decideIn order record).Ensures (World.aloneAnswers refusal id w start)
      (Explained refusal id w start record) := by
  have hclosure (l : List Role)
      (hl : (World.aloneAnswers refusal id w start).closure record.user (.ok l)) (x : Role) :
      x ∈ l ↔ x ∈ w.graph.closure record.user := by
    have hroles : .ok l = w.rolesOf record.user := hl
    rw [World.rolesOf] at hroles
    split at hroles
    · cases hroles
    · cases hroles
      exact Iff.rfl
  have hsettle := ensures_decideIn (A := World.aloneAnswers refusal id w start) w.stored record
    horder hclosure (fun l m hm => hm) (fun x _ v hv => hv)
  refine hsettle.mono ?_
  rintro result (⟨e, rfl, he⟩ | hsettles)
  · exact Or.inl he.symm
  · cases result with
    | ok b =>
      refine Iff.trans hsettles (forall_congr' fun p => imp_congr_right fun _ => ?_)
      exact coveredBy_closure_iff
    | error e =>
      obtain ⟨x, hx, hfails⟩ := hsettles
      exact Or.inr ⟨x, RoleGraph.mem_closure_iff.1 hx, hfails⟩

/-- A decision that runs alone comes to a result, and what is known of that. -/
theorem exists_returns [KeepsAnswers σ] (refusal : Role → Option Error) (id : TaskId)
    (record : Record) (horder : ∀ l x, x ∈ order l ↔ x ∈ l) (hbegin : w.Undisturbed w) :
    ∃ result, Returns refusal id w (decideIn order record) result ∧
      Explained refusal id w (w.resume id (decideIn order record)) record result := by
  have hstarted : (w.resume id (decideIn order record)).task? id =
      some (Task.start (decideIn order record)) := by
    rw [World.task?_resume, if_pos rfl]
  obtain ⟨v, result, hleads, hresult, hexplained⟩ := World.leads_of_ensures
    (onlyAsks_decideIn order record) (ensures_explained horder) (hbegin.resume _)
    (World.Leads.refl _) hstarted
  exact ⟨result, World.returns_of_leads hleads hresult, hexplained⟩

/-- Let the cache have nothing but what the store keeps, neither as an entry nor as the answer of a
load in flight.  Then a decision returns, and a run of the world comes to the same result.  If it
returns a value, that value is exact; if no load of a role of the user fails, it returns a value;
and if it returns an error although the graph can be read, then some role of the user that is not
resident has a failing load.  It is not resident when the load fails, and it was not when the
decision began, unless by an entry out of date that the request took out. -/
theorem decide_exact [KeepsAnswers σ] (refusal : Role → Option Error) (id : TaskId)
    (record : Record) (horder : ∀ l x, x ∈ order l ↔ x ∈ l)
    (hresident : ∀ role entry, w.cache.entry? role = some entry →
      w.stored role = .ok entry.whitelist)
    (hanswered : ∀ role generation answer waiters,
      w.cache.flight? role = some ⟨.answered generation answer, waiters⟩ →
        answer = w.stored role) :
    (∃ result, Returns refusal id w (decideIn order record) result ∧
        ∃ actions, ((w.resume id (decideIn order record)).run actions).result? id = some result) ∧
      (∀ b, Returns refusal id w (decideIn order record) (.ok b) →
        (b = true ↔ Exempt w record)) ∧
      (w.graphFault = none → (∀ x, w.graph.Reaches record.user x → ¬ w.LoadFails refusal x) →
        ∃ b, Returns refusal id w (decideIn order record) (.ok b)) ∧
      ∀ e, w.graphFault = none → Returns refusal id w (decideIn order record) (.error e) →
        ∃ x, w.graph.Reaches record.user x ∧ w.LoadFails refusal x ∧
          IsDenied refusal id (w.resume id (decideIn order record)) x ∧ w.Lacks x ∧
          (w.UpToDate → w.cache.isResident x = false) := by
  have hbegin : w.Undisturbed w := by
    refine ⟨rfl, rfl, fun _ => rfl, fun _ => rfl, hresident, hanswered, fun _ _ h _ => h⟩
  obtain ⟨result, hreturns, hexplained⟩ := exists_returns refusal id record horder hbegin
  have hgraph (e : Error) (hfault : w.graphFault = none) : w.rolesOf record.user ≠ .error e := by
    rw [World.rolesOf, hfault]
    simp
  refine ⟨⟨result, hreturns, hreturns.exists_run⟩, fun b hb => ?_, fun hfault hloads => ?_,
    fun e hfault he => ?_⟩
  · rw [hreturns.unique hb] at hexplained
    exact hexplained
  · cases result with
    | ok b => exact ⟨b, hreturns⟩
    | error e =>
      rcases hexplained with hroles | ⟨x, hx, hfails, -⟩
      · exact absurd hroles (hgraph e hfault)
      · exact absurd hfails (hloads x hx)
  · rw [hreturns.unique he] at hexplained
    obtain ⟨x, hx, hfails, hlacks, hdenied⟩ := hexplained.resolve_left (hgraph e hfault)
    exact ⟨x, hx, hfails, hdenied, hlacks, fun hdate => hlacks.not_isResident hdate⟩

end Exactness

namespace Offline

open Sample SampleRole

/-- The user's own whitelist is absent from the cache, and the auditor's is resident. -/
def world : World MemoryStore Bool where
  graph := graph
  graphFault := none
  store := .grant .empty auditor .data [.select, .modify]
  cache := (Cache.new true).keep auditor ⟨⟨0, 0⟩, exempt⟩
  sink := {}
  tasks := ∅

/-- Loads of the auditor's whitelist fail. -/
def refusal (role : Role) : Option Error :=
  if role = auditor then some (.store (.stated "offline")) else none

theorem entry?_world (role : Role) :
    world.cache.entry? role = if auditor = role then some ⟨⟨0, 0⟩, exempt⟩ else none := by
  have hnew (r : Role) : Cache.entry? (Cache.new true) r = none := by simp [Cache.new, Cache.entry?]
  rw [world, Cache.entry?_keep, hnew]
  simp [Cache.new]

theorem not_lacks_of_loadFails {role : Role} (h : world.LoadFails refusal role) :
    ¬ world.Lacks role := by
  intro hlacks
  obtain ⟨e, he⟩ := h
  by_cases hrole : role = auditor
  · subst hrole
    exact hlacks ⟨⟨0, 0⟩, exempt⟩ (by rw [entry?_world, if_pos rfl]) (by decide +kernel)
  · rw [refusal, if_neg hrole] at he
    cases he

theorem exempt_record : Exempt world record := by
  have hall : ∀ p ∈ record.permissions.toList, exempt.permits .data p = true := by decide +kernel
  intro p hp
  refine ⟨auditor, .data, exempt, ?_, by decide +kernel, by decide +kernel, hall p hp⟩
  exact Relation.ReflTransGen.single (show world.graph.holds _ _ = true by decide +kernel)

end Offline

open Sample SampleRole Offline in
theorem decide_exact_offline :
    Returns refusal 0 Offline.world (decideIn List.reverse record) (.ok true) := by
  have hresident (role : Role) (entry : Cache.Entry)
      (hentry : Offline.world.cache.entry? role = some entry) :
      Offline.world.stored role = .ok entry.whitelist := by
    rw [entry?_world] at hentry
    split at hentry
    · rename_i hrole
      cases hentry
      rw [← hrole]
      decide +kernel
    · cases hentry
  have hanswered (role : Role) (generation : Generation) (answer : Except Error Whitelist)
      (waiters : List TaskId)
      (hflight : Offline.world.cache.flight? role = some ⟨.answered generation answer, waiters⟩) :
      answer = Offline.world.stored role := by
    rw [Offline.world, Cache.flight?_keep] at hflight
    simp [Cache.new, Cache.flight?] at hflight
  obtain ⟨⟨result, hreturns, -⟩, hvalue, -, herror⟩ := decide_exact refusal 0 record
    (fun l x => List.mem_reverse) hresident hanswered
  cases result with
  | ok b =>
    rw [← (hvalue b hreturns).2 exempt_record]
    exact hreturns
  | error e =>
    obtain ⟨x, -, hfails, -, hlacks, -⟩ := herror e rfl hreturns
    exact absurd hlacks (not_lacks_of_loadFails hfails)

end Decision
end AuditTrail
