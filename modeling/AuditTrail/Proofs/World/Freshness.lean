import AuditTrail.Proofs.Role.Sample
import AuditTrail.Proofs.World.Provenance
import AuditTrail.Store.Memory

/-!
# Freshness after an invalidation

A load reads its generation before it asks the store, and a request reads the generation again
before it hands the whitelist out.  A bump between the two readings is seen, because generations
never go down, although each of the two readings is made in two steps.
-/

namespace AuditTrail.World

variable {σ ρ : Type} [WhitelistStore σ] {w : World σ ρ} {actions : List (Action σ ρ)} {role : Role}
  {id : TaskId} {whitelist : Whitelist}

theorem counter_eq_of_moves {w : World σ ρ} {a : Action σ ρ} {t t' : Task ρ}
    {next : Whitelist → Procedure ρ} {entry : Cache.Entry} {counter : Nat}
    (h : w.Moves id a t t') (ht' : t' = ⟨.whitelist role next, .counted entry counter⟩) :
    w.cache.counter role = counter := by
  have hstage : t'.stage = .counted entry counter := by rw [ht']
  cases h with
  | counted =>
    cases ht'
    rfl
  | @received r refusal g answer waiters t hflight hid =>
    cases hout : Cache.outcome answer refusal with
    | ok whitelist =>
      rw [hout] at hstage
      cases hstage
    | error e =>
      rw [hout] at hstage
      cases hstage
  | _ => cases hstage

/-- A request that began at `j` or later has read the counter of its role at `j` or later. -/
theorem counter_of_counted {j n : Nat} (hbegin : ¬ (w.after actions j).MidRequest id)
    (hjn : j ≤ n) :
    ∀ role next entry counter,
      (w.after actions n).task? id = some ⟨.whitelist role next, .counted entry counter⟩ →
      ∃ u, j ≤ u ∧ (w.after actions u).cache.counter role = counter := by
  intro role next entry counter htask
  refine task_induction_from (P := fun _ t => ∀ role next entry counter,
    t = ⟨.whitelist role next, .counted entry counter⟩ →
      ∃ u, j ≤ u ∧ (w.after actions u).cache.counter role = counter)
    ?_ ?_ ?_ ?_ hjn _ htask role next entry counter rfl
  · rintro t ht role next entry counter rfl
    exact absurd ⟨role, next, _, ht, by simp⟩ hbegin
  · intro k p role next entry counter ht
    cases ht
  · exact fun k t ih => ih
  · intro k a t t' hk ha ht hmoves ih role next entry counter ht'
    exact ⟨k, hk, counter_eq_of_moves hmoves ht'⟩

/-- A generation that was read by the time `t`, and is current when it is read again from `j` on,
was read after every bump before `j`. -/
theorem lt_of_readAt {g : Generation} {scope : Scope} {i j t u k : Nat}
    (hread : ReadAt w actions role g t) (hbump : .bumped scope ∈ w.eventsAt actions i)
    (hscope : scope.Reaches role) (hij : i < j) (hu : j ≤ u) (hk : j ≤ k)
    (hcounter : (w.after actions u).cache.counter role = g.counter)
    (hepoch : (w.after actions k).cache.epoch = g.epoch) : i < t := by
  have hcache := cache_after_bumped hbump
  refine Nat.lt_of_not_le fun hti => ?_
  cases scope with
  | role r =>
    have hr : r = role := hscope
    subst hr
    obtain ⟨s, hst, hs⟩ := hread.counter
    have hraised : (w.after actions (i + 1)).cache.counter r =
        (w.after actions i).cache.counter r + 1 := by
      rw [hcache, Cache.counter_bump, if_pos rfl]
    have hbefore := (generation_mono w actions r (show s ≤ i by omega)).1
    have hafter := (generation_mono w actions r (show i + 1 ≤ u by omega)).1
    omega
  | everything =>
    have hraised : (w.after actions (i + 1)).cache.epoch = (w.after actions i).cache.epoch + 1 := by
      rw [hcache, Cache.epoch_bump, if_pos rfl]
    have hbefore := (generation_mono w actions role hti).2
    have hafter := (generation_mono w actions role (show i + 1 ≤ k by omega)).2
    have hs := hread.epoch
    omega

/-- What a request hands out was given by one load, and that load asked the store after every bump
that came before the request. -/
theorem loaded_of_granted {j k : Nat} (hw : w.IsNew)
    (hbegin : ¬ (w.after actions j).MidRequest id) (hjk : j ≤ k)
    (hgrant : .granted id role whitelist ∈ w.eventsAt actions k) :
    ∃ asked landed, landed < k ∧ LoadGives w actions role whitelist asked landed ∧
      ∀ scope i, i < j → .bumped scope ∈ w.eventsAt actions i → scope.Reaches role → i < asked := by
  obtain ⟨a, -, hshows⟩ := mem_eventsAt_iff.1 hgrant
  cases hshows with
  | @granted _ _ next entry counter htask hgen =>
    obtain ⟨asked, landed, hlanded, hgives, t, ht, hread⟩ :=
      sourced_of_held hw id role next _ entry htask rfl
    obtain ⟨u, hju, hcounter⟩ := counter_of_counted hbegin hjk role next entry counter htask
    refine ⟨asked, landed, hlanded, hgives, fun scope i hij hbump hscope => ?_⟩
    have hit : i < t :=
      lt_of_readAt hread hbump hscope hij hju hjk (by rw [hcounter, hgen]) (by rw [hgen])
    exact Nat.lt_trans hit ht

theorem not_midRequest_of_consulted {j : Nat}
    (h : .consulted id role ∈ w.eventsAt actions j) : ¬ (w.after actions j).MidRequest id := by
  obtain ⟨a, -, hshows⟩ := mem_eventsAt_iff.1 h
  cases hshows with
  | consulted htask =>
    rintro ⟨r, next, stage, hmid, hstage⟩
    rw [htask] at hmid
    cases hmid
    exact hstage rfl

/-- A request that begins after a bump which reaches its role hands out what a successful load of
that role gave, and the store was asked for it after the bump. -/
theorem load_follows_bump (hw : w.IsNew) {scope : Scope} {bump begin grant : Nat}
    (hbump : .bumped scope ∈ w.eventsAt actions bump) (hscope : scope.Reaches role)
    (hbegin : .consulted id role ∈ w.eventsAt actions begin) (hafter : bump < begin)
    (hgrant : .granted id role whitelist ∈ w.eventsAt actions grant) (hlate : begin ≤ grant) :
    ∃ asked landed, bump < asked ∧ landed < grant ∧
      LoadGives w actions role whitelist asked landed := by
  obtain ⟨asked, landed, hlanded, hgives, hfresh⟩ :=
    loaded_of_granted hw (not_midRequest_of_consulted hbegin) hlate hgrant
  exact ⟨asked, landed, hfresh scope bump hafter hbump hscope, hlanded, hgives⟩

namespace Overtaken

open SampleRole

def exempt : Whitelist := Whitelist.empty.grant .data [.select]

def world : World MemoryStore Whitelist := ⟨.empty, none, .empty, .new true, {}, ∅⟩

/-- The first request has its answer from the store when the whitelist changes and the role is
invalidated.  The second request joins that load, finds the entry out of date and loads again. -/
def steps : List (Action MemoryStore Whitelist) :=
  [.spawn 1 (.whitelistOf auditor), .advance 1, .proceed auditor, .proceed auditor,
    .proceed auditor, .proceed auditor,
    .changeStore (MemoryStore.empty.grant auditor .data [.select]),
    .spawn 2 ((Procedure.invalidate (.role auditor)).andThen fun _ => .done ∅), .advance 2,
    .spawn 3 (.whitelistOf auditor), .advance 3, .deliver auditor none,
    .advance 3, .advance 3, .advance 3, .advance 3,
    .proceed auditor, .proceed auditor, .proceed auditor, .proceed auditor,
    .deliver auditor none, .advance 3, .advance 3]

end Overtaken

open Overtaken SampleRole in
theorem load_follows_bump_overtaken :
    ∃ asked landed, 8 < asked ∧ landed < 22 ∧
      LoadGives Overtaken.world steps auditor exempt asked landed := by
  have hbump : .bumped (.role auditor) ∈ Overtaken.world.eventsAt steps 8 := by
    decide +kernel
  have hbegin : .consulted 3 auditor ∈ Overtaken.world.eventsAt steps 10 := by
    decide +kernel
  have hgrant : .granted 3 auditor exempt ∈ Overtaken.world.eventsAt steps 22 := by
    decide +kernel
  exact load_follows_bump ⟨⟨true, rfl⟩, rfl⟩ hbump rfl hbegin (by decide) hgrant (by decide)

end AuditTrail.World
