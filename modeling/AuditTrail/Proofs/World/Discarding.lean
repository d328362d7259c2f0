import AuditTrail.Proofs.World.Loading

/-!
# What requests take out of the cache

A request that finds its entry out of date takes out whatever is resident for the role by then.  The
entry in its hand is out of date for good (`lt_of_outdated`), so as long as the cache holds that
entry, nothing of use is lost.  But several requests may hold the entry of one load.  When the first
of them has loaded again, the others still take out what they find, and that is the new entry
(`dropped_outdated_iff`).
-/

namespace AuditTrail

/-! ## The order of generations -/

namespace Generation

/-- Neither part is ever lowered, so this is the order of time. -/
instance : LE Generation := ⟨fun g h => g.epoch ≤ h.epoch ∧ g.counter ≤ h.counter⟩

instance : LT Generation := ⟨fun g h => g ≤ h ∧ g ≠ h⟩

variable {f g h : Generation}

theorem le_trans (hfg : f ≤ g) (hgh : g ≤ h) : f ≤ h :=
  ⟨Nat.le_trans hfg.1 hgh.1, Nat.le_trans hfg.2 hgh.2⟩

theorem le_antisymm (hgh : g ≤ h) (hhg : h ≤ g) : g = h := by
  obtain ⟨epoch, counter⟩ := g
  have hepoch : epoch = h.epoch := Nat.le_antisymm hgh.1 hhg.1
  have hcounter : counter = h.counter := Nat.le_antisymm hgh.2 hhg.2
  rw [hepoch, hcounter]

theorem lt_of_lt_of_le (hfg : f < g) (hgh : g ≤ h) : f < h := by
  refine ⟨le_trans hfg.1 hgh, ?_⟩
  rintro rfl
  exact hfg.2 (le_antisymm hfg.1 hgh)

end Generation

namespace World

variable {σ ρ : Type}

/-- As far as the stamp of a load in flight for the role has been read, it is this generation. -/
def LoadAgrees (w : World σ ρ) (role : Role) (g : Generation) : Prop :=
  ∀ flight, w.cache.flight? role = some flight → flight.stage.Agrees g

/-- While a load is in flight, nothing is resident for its role. -/
def LoadsMiss (w : World σ ρ) : Prop :=
  ∀ role flight, w.cache.flight? role = some flight → w.cache.entry? role = none

/-- What the cache has of the role, and what a load in flight will leave, is stamped with this
generation, as far as the stamp has been read. -/
structure Stamps (w : World σ ρ) (role : Role) (g : Generation) : Prop where
  entry : ∀ entry, w.cache.entry? role = some entry → entry.generation = g
  flight : ∀ flight, w.cache.flight? role = some flight → flight.stage.Agrees g

variable [WhitelistStore σ]

section Structures

variable (w : World σ ρ) (actions : List (Action σ ρ)) (id : TaskId) (role : Role)

/-- The load that lands at this moment leaves the entry in the cache. -/
def Lands (entry : Cache.Entry) (n : Nat) : Prop :=
  ∃ refusal answer waiters, actions[n]? = some (.deliver role refusal) ∧
    (w.after actions n).cache.flight? role =
      some ⟨.answered entry.generation answer, waiters⟩ ∧
    Cache.outcome answer refusal = .ok entry.whitelist

/-- The request took the entry at one moment and has had it in hand ever since. -/
structure HeldSince (entry : Cache.Entry) (took now : Nat) : Prop where
  past : took < now
  taken : ∀ t, (w.after actions took).task? id = some t → t.stage.entry? = none
  held : ∀ n, took < n → n ≤ now → ∃ next stage,
    (w.after actions n).task? id = some ⟨.whitelist role next, stage⟩ ∧ stage.entry? = some entry

/-- What the comparisons of a request have shown so far. -/
def Compared (now : Nat) : RequestStage → Prop
  | .counted entry counter => ∃ u, u ≤ now ∧ Sourced w actions role u entry ∧
      (w.after actions u).cache.counter role = counter
  | .outdated entry => entry.generation < (w.after actions now).cache.generation role
  | .probing | .waiting | .holding _ => True

end Structures

/-! ## Loads and entries -/

theorem loadsMiss_step {w : World σ ρ} (h : LoadsMiss w) (a : Action σ ρ) :
    LoadsMiss (w.step a) := by
  intro role flight hflight
  have habsent : w.cache.entry? role = none := by
    rcases flight?_step hflight with hkept | ⟨id, next, -, -, habsent, -⟩ | ⟨f, -, hf, -⟩
    · exact h role flight hkept
    · exact habsent
    · exact h role f hf
  cases hentry : (w.step a).cache.entry? role with
  | none => rfl
  | some entry =>
    rcases entry?_step hentry with hkept | ⟨refusal, answer, waiters, rfl, hanswered, -⟩
    · rw [habsent] at hkept
      cases hkept
    · rw [step, flight?_deliver hanswered, if_pos rfl] at hflight
      cases hflight

theorem LoadAgrees.step {w : World σ ρ} {role : Role} {g : Generation} (h : w.LoadAgrees role g)
    (hgen : w.cache.generation role = g) (a : Action σ ρ) : (w.step a).LoadAgrees role g := by
  intro flight hflight
  rcases flight?_step hflight with hkept | ⟨id, next, -, -, -, rfl⟩ | ⟨f, -, hf, -, hmoves⟩
  · exact h flight hkept
  · cases hf : w.cache.flight? role with
    | none => exact trivial
    | some f => exact h f hf
  · have hbefore := h f hf
    rw [← hgen] at hbefore ⊢
    exact agrees_of_loadMoves hmoves hbefore

/-- As long as the generation stays, so do the stamps. -/
theorem Stamps.step {w : World σ ρ} {role : Role} {g : Generation} (h : Stamps w role g)
    (hgen : w.cache.generation role = g) (a : Action σ ρ) : Stamps (w.step a) role g := by
  refine ⟨fun entry hentry => ?_, LoadAgrees.step h.flight hgen a⟩
  rcases entry?_step hentry with hkept | ⟨refusal, answer, waiters, -, hflight, -⟩
  · exact h.entry entry hkept
  · exact h.flight _ hflight

variable {w : World σ ρ} {actions : List (Action σ ρ)} {id : TaskId} {role : Role} {m n : Nat}
  {entry held fresh : Cache.Entry}

theorem loadsMiss_after (hw : w.IsNew) : LoadsMiss (w.after actions n) := by
  refine after_induction_from (P := fun _ w' => LoadsMiss w') (m := 0) ?_ ?_ ?_ (Nat.zero_le n)
  · intro role flight hflight
    obtain ⟨retains, hcache⟩ := hw.cache
    rw [after_zero, hcache] at hflight
    simp [Cache.flight?, Cache.new] at hflight
  · exact fun _ _ _ ih => ih
  · exact fun _ a _ _ ih => loadsMiss_step ih a

theorem entry?_succ (h : (w.after actions (n + 1)).cache.entry? role = some entry) :
    (w.after actions n).cache.entry? role = some entry ∨ Lands w actions role entry n := by
  cases ha : actions[n]? with
  | none =>
    rw [after_succ_of_none ha] at h
    exact Or.inl h
  | some a =>
    rw [after_succ ha] at h
    rcases entry?_step h with hkept | ⟨refusal, answer, waiters, rfl, hflight, hout⟩
    · exact Or.inl hkept
    · exact Or.inr ⟨refusal, answer, waiters, ha, hflight, hout⟩

/-- A load that lands finds nothing resident. -/
theorem Lands.absent (hw : w.IsNew) (h : Lands w actions role entry n) :
    (w.after actions n).cache.entry? role = none := by
  obtain ⟨refusal, answer, waiters, -, hflight, -⟩ := h
  exact loadsMiss_after hw role _ hflight

theorem Lands.unique (h : Lands w actions role entry n) (h' : Lands w actions role held n) :
    entry = held := by
  obtain ⟨refusal, answer, waiters, ha, hflight, hout⟩ := h
  obtain ⟨refusal', answer', waiters', ha', hflight', hout'⟩ := h'
  obtain ⟨generation, whitelist⟩ := entry
  obtain ⟨generation', whitelist'⟩ := held
  rw [ha, Option.some.injEq, Action.deliver.injEq] at ha'
  rw [hflight, Option.some.injEq, Cache.Flight.mk.injEq, Cache.LoadStage.answered.injEq] at hflight'
  obtain ⟨⟨hgeneration, rfl⟩, -⟩ := hflight'
  rw [← ha'.2, hout, Except.ok.injEq] at hout'
  rw [Cache.Entry.mk.injEq]
  exact ⟨hgeneration, hout'⟩

/-! ## Generations over time -/

theorem generation_le (w : World σ ρ) (actions : List (Action σ ρ)) (role : Role) (h : m ≤ n) :
    (w.after actions m).cache.generation role ≤ (w.after actions n).cache.generation role :=
  (generation_mono w actions role h).symm

/-- The stamp of an entry is not later than the generation at any time from then on. -/
theorem Sourced.le (h : Sourced w actions role m entry) (hmn : m ≤ n) :
    entry.generation ≤ (w.after actions n).cache.generation role := by
  obtain ⟨asked, landed, hlanded, hgives, t, hasked, hread⟩ := h
  obtain ⟨answered, hafter, hbefore, -⟩ := hgives.answers
  obtain ⟨s, hst, hcounter⟩ := hread.counter
  have hepoch := (generation_mono w actions role (show t ≤ n by omega)).2
  have hcounted := (generation_mono w actions role (show s ≤ n by omega)).1
  rw [hread.epoch] at hepoch
  rw [hcounter] at hcounted
  exact ⟨hepoch, hcounted⟩

/-! ## Comparisons -/

theorem Compared.succ {stage : RequestStage} (h : Compared w actions role n stage) :
    Compared w actions role (n + 1) stage := by
  cases stage with
  | probing | waiting | holding => exact trivial
  | counted entry counter =>
    obtain ⟨u, hu, hrest⟩ := h
    exact ⟨u, Nat.le_succ_of_le hu, hrest⟩
  | outdated entry =>
    have hlt : entry.generation < (w.after actions n).cache.generation role := h
    exact Generation.lt_of_lt_of_le hlt (generation_le w actions role (Nat.le_succ n))

/-- A stamp that differs from the generation that was read is earlier than it, although the
generation is read in two steps. -/
theorem Compared.refuted {counter : Nat} (h : Compared w actions role n (.counted entry counter))
    (hne : entry.generation ≠ ⟨(w.after actions n).cache.epoch, counter⟩) :
    Compared w actions role (n + 1) (.outdated entry) := by
  obtain ⟨u, hu, hsourced, hcounter⟩ := h
  have hread : entry.generation ≤ ⟨(w.after actions n).cache.epoch, counter⟩ := by
    have hle := hsourced.le (Nat.le_refl u)
    have hepoch := (generation_mono w actions role hu).2
    rw [← hcounter]
    exact ⟨Nat.le_trans hle.1 hepoch, hle.2⟩
  have hlater : (⟨(w.after actions n).cache.epoch, counter⟩ : Generation) ≤
      (w.after actions (n + 1)).cache.generation role := by
    have hepoch := (generation_mono w actions role (Nat.le_succ n)).2
    have hcounted := (generation_mono w actions role (Nat.le_succ_of_le hu)).1
    rw [hcounter] at hcounted
    exact ⟨hepoch, hcounted⟩
  exact Generation.lt_of_lt_of_le ⟨hread, hne⟩ hlater

theorem compared_of_task (hw : w.IsNew) {next : Whitelist → Procedure ρ} {stage : RequestStage}
    (htask : (w.after actions n).task? id = some ⟨.whitelist role next, stage⟩) :
    Compared w actions role n stage := by
  refine task_induction_from (P := fun k t => ∀ role next stage, t = ⟨.whitelist role next, stage⟩ →
    Compared w actions role k stage) ?_ ?_ ?_ ?_ (Nat.zero_le n) _ htask role next stage rfl
  · intro t ht
    rw [after_zero, task?, hw.tasks] at ht
    simp at ht
  · rintro k p role next stage ⟨⟩
    exact trivial
  · exact fun k t ih role next stage ht => (ih role next stage ht).succ
  · intro k a t t' _ ha hbefore hmoves ih role next stage ht'
    have hstage : t'.stage = stage := by rw [ht']
    cases hmoves with
    | @counted r next' entry =>
      cases ht'
      exact ⟨k, Nat.le_succ k, sourced_of_held hw id _ _ _ entry hbefore rfl, rfl⟩
    | @refuted r next' entry counter hgen =>
      cases ht'
      exact (ih role next (.counted entry counter) rfl).refuted hgen
    | @received r refusal generation answer waiters _ hflight hid =>
      cases hout : Cache.outcome answer refusal with
      | ok whitelist =>
        rw [← hstage, hout]
        exact trivial
      | error e =>
        rw [← hstage, hout]
        exact trivial
    | _ =>
      rw [← hstage]
      exact trivial

/-- What a request has found to be out of date stays so. -/
theorem lt_of_outdated (hw : w.IsNew) {next : Whitelist → Procedure ρ}
    (htask : (w.after actions n).task? id = some ⟨.whitelist role next, .outdated held⟩) :
    held.generation < (w.after actions n).cache.generation role :=
  compared_of_task hw htask

/-! ## An entry in hand -/

theorem HeldSince.succ {took : Nat} {next : Whitelist → Procedure ρ} {stage : RequestStage}
    (h : HeldSince w actions id role held took n)
    (htask : (w.after actions (n + 1)).task? id = some ⟨.whitelist role next, stage⟩)
    (hstage : stage.entry? = some held) : HeldSince w actions id role held took (n + 1) := by
  refine ⟨Nat.lt_succ_of_lt h.past, h.taken, fun k hk hkn => ?_⟩
  rcases Nat.lt_or_eq_of_le hkn with hlt | rfl
  · exact h.held k hk (Nat.le_of_lt_succ hlt)
  · exact ⟨next, stage, htask, hstage⟩

/-- The entry in hand was taken at some moment.  Right after that it is what is resident for the
role, if anything is. -/
theorem exists_heldSince (hw : w.IsNew) {next : Whitelist → Procedure ρ} {stage : RequestStage}
    (htask : (w.after actions n).task? id = some ⟨.whitelist role next, stage⟩)
    (hstage : stage.entry? = some held) :
    ∃ took, HeldSince w actions id role held took n ∧ ∀ entry,
      (w.after actions (took + 1)).cache.entry? role = some entry → entry = held := by
  induction n generalizing next stage with
  | zero =>
    rw [after_zero, task?, hw.tasks] at htask
    simp at htask
  | succ n ih =>
    have hgoesOn {stage' : RequestStage}
        (hbefore : (w.after actions n).task? id = some ⟨.whitelist role next, stage'⟩)
        (hstage' : stage'.entry? = some held) :
        ∃ took, HeldSince w actions id role held took (n + 1) ∧ ∀ entry,
          (w.after actions (took + 1)).cache.entry? role = some entry → entry = held := by
      obtain ⟨took, hsince, hresident⟩ := ih hbefore hstage'
      exact ⟨took, hsince.succ htask hstage, hresident⟩
    cases ha : actions[n]? with
    | none =>
      have hbefore := htask
      rw [after_succ_of_none ha] at hbefore
      exact hgoesOn hbefore hstage
    | some a =>
      have hafter := htask
      rw [after_succ ha] at hafter
      cases hbefore : (w.after actions n).task? id with
      | none =>
        rcases task?_step_of_none hbefore a with hnone | ⟨p, -, hp⟩
        · rw [hnone] at hafter
          cases hafter
        · rw [hp] at hafter
          cases hafter
          cases hstage
      | some t =>
        obtain ⟨t', ht', hcase⟩ := task?_step hbefore a
        rw [hafter, Option.some.injEq] at ht'
        rcases hcase with heq | hmoves
        · rw [heq] at ht'
          exact hgoesOn (by rw [hbefore, ht']) hstage
        · rw [← ht'] at hmoves
          rcases takes_of_moves (waitersWait_after hw) hbefore hmoves hstage with
            ⟨stage', ht, hstage'⟩ | ⟨hfree, htakes⟩
          · exact hgoesOn (by rw [hbefore, ht]) hstage'
          · have hsince : HeldSince w actions id role held n (n + 1) := by
              refine ⟨Nat.lt_succ_self n, fun s hs => ?_, fun k hk hkn => ?_⟩
              · rw [hbefore, Option.some.injEq] at hs
                rw [← hs]
                exact hfree
              · obtain rfl : k = n + 1 := by omega
                exact ⟨next, stage, htask, hstage⟩
            refine ⟨n, hsince, fun entry hentry => ?_⟩
            rcases htakes with hfound | ⟨refusal, answer, waiters, rfl, hflight, hout⟩
            · -- no load lands while the entry that was found is resident
              rcases entry?_succ hentry with hkept | hlands
              · rw [hfound, Option.some.injEq] at hkept
                exact hkept.symm
              · rw [hlands.absent hw] at hfound
                cases hfound
            · have hheld : Lands w actions role held n :=
                ⟨refusal, answer, waiters, ha, hflight, hout⟩
              rcases entry?_succ hentry with hkept | hlands
              · rw [hheld.absent hw] at hkept
                cases hkept
              · exact hlands.unique hheld

/-- While a request holds its entry, nothing else becomes resident but by a load that lands. -/
theorem HeldSince.resident {took : Nat}
    (htook : ∀ entry, (w.after actions (took + 1)).cache.entry? role = some entry → entry = held)
    (hn : took < n) (hentry : (w.after actions n).cache.entry? role = some entry) :
    entry = held ∨
      ∃ landing, took < landing ∧ landing < n ∧ Lands w actions role entry landing := by
  induction hn with
  | refl => exact Or.inl (htook entry hentry)
  | @step n hn ih =>
    rcases entry?_succ hentry with hkept | hlands
    · rcases ih hkept with hheld | ⟨landing, hafter, hbefore, hlanding⟩
      · exact Or.inl hheld
      · exact Or.inr ⟨landing, hafter, Nat.lt_succ_of_lt hbefore, hlanding⟩
    · exact Or.inr ⟨n, hn, Nat.lt_succ_self n, hlands⟩

/-! ## A load that has landed since -/

/-- An entry that has landed is not stamped with a later generation than the present one. -/
theorem Lands.le (hw : w.IsNew) (h : Lands w actions role fresh m) (hmn : m < n) :
    fresh.generation ≤ (w.after actions n).cache.generation role := by
  obtain ⟨refusal, answer, waiters, ha, hflight, hout⟩ := h
  exact (sourced_of_landing hw ha hflight hout).le hmn

theorem Lands.stamps (hw : w.IsNew) (h : Lands w actions role fresh m) :
    Stamps (w.after actions (m + 1)) role fresh.generation := by
  constructor
  · intro entry hentry
    rcases entry?_succ hentry with hkept | hlands
    · rw [h.absent hw] at hkept
      cases hkept
    · rw [hlands.unique h]
  · intro flight hflight
    obtain ⟨refusal, answer, waiters, ha, hanswered, -⟩ := h
    rw [after_succ ha, step, flight?_deliver hanswered, if_pos rfl] at hflight
    cases hflight

/-- If a load has landed that has the present generation, whatever is resident has it too. -/
theorem Lands.generation_eq (hw : w.IsNew) (h : Lands w actions role fresh m) (hmn : m < n)
    (hfresh : fresh.generation = (w.after actions n).cache.generation role)
    (hentry : (w.after actions n).cache.entry? role = some entry) :
    entry.generation = (w.after actions n).cache.generation role := by
  -- between the end of the load and the present the generation has not changed
  have hsteady {k : Nat} (hk : m < k) (hkn : k ≤ n) :
      (w.after actions k).cache.generation role = fresh.generation := by
    have hpresent := generation_le w actions role hkn
    rw [← hfresh] at hpresent
    exact Generation.le_antisymm hpresent (h.le hw hk)
  have hstamps : n ≤ n → Stamps (w.after actions n) role fresh.generation := by
    refine after_induction_from
      (P := fun k w' => k ≤ n → Stamps w' role fresh.generation) ?_ ?_ ?_ hmn
    · exact fun _ => h.stamps hw
    · exact fun k _ _ ih hkn => ih (Nat.le_of_succ_le hkn)
    · intro k a hk _ ih hkn
      have hbefore := ih (Nat.le_of_succ_le hkn)
      exact hbefore.step (hsteady hk (Nat.le_of_succ_le hkn)) a
  rw [← hfresh]
  exact (hstamps (Nat.le_refl n)).entry entry hentry

/-- A request that takes an entry out has had an entry in hand which is out of date.  What it takes
out is out of date as well exactly if no load that has the present generation has landed since the
request came by its own entry. -/
theorem dropped_outdated_iff (hw : w.IsNew) (hdropped : .dropped id role ∈ w.eventsAt actions n)
    (hentry : (w.after actions n).cache.entry? role = some entry) :
    ∃ took held, HeldSince w actions id role held took n ∧
      held.generation ≠ (w.after actions n).cache.generation role ∧
      (entry.generation ≠ (w.after actions n).cache.generation role ↔
        ∀ landing fresh, took < landing → landing < n → Lands w actions role fresh landing →
          fresh.generation ≠ (w.after actions n).cache.generation role) := by
  obtain ⟨a, -, hshows⟩ := mem_eventsAt_iff.1 hdropped
  cases hshows with
  | @dropped _ _ next held htask =>
    obtain ⟨took, hsince, htook⟩ := exists_heldSince hw htask rfl
    have houtdated := (lt_of_outdated hw htask).2
    refine ⟨took, held, hsince, houtdated, ?_, ?_⟩
    · intro hstale landing fresh _ hlanding hlands hfresh
      exact hstale (hlands.generation_eq hw hlanding hfresh hentry)
    · intro hnone
      rcases HeldSince.resident htook hsince.past hentry with
        rfl | ⟨landing, hafter, hbefore, hlands⟩
      · exact houtdated
      · exact hnone landing entry hafter hbefore hlands

namespace Rivals

open Overtaken SampleRole

/-- Two requests wait for one load, and the role is invalidated before it lands.  The first to find
the entry out of date takes it out and loads again.  When the second has come so far, the new entry
is resident. -/
def racing : List (Action MemoryStore Whitelist) :=
  [.spawn 1 (.whitelistOf auditor), .spawn 2 (.whitelistOf auditor), .advance 1, .advance 2,
    .proceed auditor, .proceed auditor, .proceed auditor, .proceed auditor,
    .spawn 3 ((Procedure.invalidate (.role auditor)).andThen fun _ => .done ∅), .advance 3,
    .advance 3, .deliver auditor none,
    .advance 1, .advance 1, .advance 1, .advance 1,
    .proceed auditor, .proceed auditor, .proceed auditor, .proceed auditor,
    .deliver auditor none, .advance 2, .advance 2, .advance 2]

end Rivals

open Overtaken Rivals SampleRole in
/-- A request takes out an entry that is up to date. -/
theorem drops_upToDate :
    .bumped (.role auditor) ∈ Overtaken.world.eventsAt racing 9 ∧
      .asked auditor ∈ Overtaken.world.eventsAt racing 18 ∧
      .dropped 2 auditor ∈ Overtaken.world.eventsAt racing 23 ∧
      (Overtaken.world.after racing 23).cache.entry? auditor = some ⟨⟨0, 1⟩, .empty⟩ ∧
      (Overtaken.world.after racing 23).cache.generation auditor = ⟨0, 1⟩ ∧
      (Overtaken.world.after racing 24).cache.entry? auditor = none := by
  decide +kernel

open Overtaken Rivals SampleRole in
theorem dropped_outdated_iff_second :
    ∃ took landing fresh, took < landing ∧ landing < 23 ∧
      Lands Overtaken.world racing auditor fresh landing ∧ fresh.generation = ⟨0, 1⟩ := by
  have hdropped : .dropped 2 auditor ∈ Overtaken.world.eventsAt racing 23 := by decide +kernel
  have hentry : (Overtaken.world.after racing 23).cache.entry? auditor =
      some ⟨⟨0, 1⟩, .empty⟩ := by decide +kernel
  have hgeneration : (Overtaken.world.after racing 23).cache.generation auditor = ⟨0, 1⟩ := by
    decide +kernel
  obtain ⟨took, held, -, -, hiff⟩ :=
    dropped_outdated_iff ⟨⟨true, rfl⟩, rfl⟩ hdropped hentry
  refine Classical.byContradiction fun hnone => hiff.2 ?_ hgeneration.symm
  intro landing fresh htook hlanding hlands hfresh
  exact hnone ⟨took, landing, fresh, htook, hlanding, hlands, hfresh.trans hgeneration⟩

end World
end AuditTrail
