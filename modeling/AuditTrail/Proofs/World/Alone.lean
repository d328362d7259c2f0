import AuditTrail.Proofs.World.Conduct
import AuditTrail.Session.Store

/-!
# A task that runs alone

While no other task moves, a task takes its own steps and carries the load that it waits for.  Loads
may be refused, always the same ones.  `Undisturbed` is what such a run keeps: what the store has
for each role, all generations, and every entry that is up to date.
-/

namespace AuditTrail

/-- A load leaves what the store keeps as it was. -/
class KeepsAnswers (σ : Type) [WhitelistStore σ] : Prop where
  load_load : ∀ (s : σ) (loaded role : Role),
    (WhitelistStore.load (WhitelistStore.load s loaded).2 role).1 = (WhitelistStore.load s role).1

instance : KeepsAnswers MemoryStore := ⟨fun _ _ _ => rfl⟩

instance : KeepsAnswers FileStore := ⟨fun _ _ _ => rfl⟩

instance : KeepsAnswers Session.Store where
  load_load s loaded role := by
    cases s <;> rfl

namespace World

variable {σ ρ : Type} [WhitelistStore σ]

/-! ## The run -/

/-- The next step when only the task moves. -/
def nextAlone (refusal : Role → Option Error) (id : TaskId) (w : World σ ρ) : World σ ρ :=
  match w.task? id with
  | some ⟨.whitelist role _, .waiting⟩ =>
    match w.cache.flight? role with
    | some ⟨.answered _ _, _⟩ => w.deliver role (refusal role)
    | _ => w.proceed role
  | _ => w.advance id

def runAlone (refusal : Role → Option Error) (id : TaskId) : Nat → World σ ρ → World σ ρ
  | 0, w => w
  | n + 1, w => runAlone refusal id n (nextAlone refusal id w)

/-- A procedure that the task `id` begins in this world comes to a result and stays there. -/
def Returns (refusal : Role → Option Error) (id : TaskId) (w : World σ ρ) (p : Procedure ρ)
    (result : Except Error ρ) : Prop :=
  ∃ n, ∀ m, n ≤ m → (runAlone refusal id m (w.resume id p)).result? id = some result

def Leads (refusal : Role → Option Error) (id : TaskId) (v v' : World σ ρ) : Prop :=
  ∃ n, runAlone refusal id n v = v'

variable {refusal : Role → Option Error} {id : TaskId}

theorem nextAlone_eq_step (refusal : Role → Option Error) (id : TaskId) (w : World σ ρ) :
    ∃ a, nextAlone refusal id w = w.step a := by
  unfold nextAlone
  split
  · rename_i role next htask
    split
    · exact ⟨.deliver role (refusal role), rfl⟩
    · exact ⟨.proceed role, rfl⟩
  · exact ⟨.advance id, rfl⟩

/-- Running alone is one way of running. -/
theorem runAlone_eq_run (n : Nat) (w : World σ ρ) :
    ∃ actions, runAlone refusal id n w = w.run actions := by
  induction n generalizing w with
  | zero => exact ⟨[], rfl⟩
  | succ n ih =>
    obtain ⟨a, ha⟩ := nextAlone_eq_step refusal id w
    obtain ⟨actions, hactions⟩ := ih (w.step a)
    refine ⟨a :: actions, ?_⟩
    rw [runAlone, ha, hactions]
    rfl

/-- What a task returns alone, it returns in a run of the world. -/
theorem Returns.exists_run {w : World σ ρ} {p : Procedure ρ} {result : Except Error ρ}
    (h : Returns refusal id w p result) :
    ∃ actions, ((w.resume id p).run actions).result? id = some result := by
  obtain ⟨n, hn⟩ := h
  have hresult := hn n (Nat.le_refl n)
  obtain ⟨actions, hactions⟩ := runAlone_eq_run n (w.resume id p)
  rw [hactions] at hresult
  exact ⟨actions, hresult⟩

theorem runAlone_add (m n : Nat) (w : World σ ρ) :
    runAlone refusal id (m + n) w = runAlone refusal id n (runAlone refusal id m w) := by
  induction m generalizing w with
  | zero => rw [Nat.zero_add, runAlone]
  | succ m ih => rw [Nat.succ_add, runAlone, runAlone, ih]

theorem Leads.refl (v : World σ ρ) : Leads refusal id v v := ⟨0, rfl⟩

theorem Leads.of_next {v v' : World σ ρ} (h : nextAlone refusal id v = v') :
    Leads refusal id v v' :=
  ⟨1, h⟩

theorem Leads.trans {u v v' : World σ ρ} (h : Leads refusal id u v) (h' : Leads refusal id v v') :
    Leads refusal id u v' := by
  obtain ⟨m, rfl⟩ := h
  obtain ⟨n, rfl⟩ := h'
  exact ⟨m + n, runAlone_add m n u⟩

theorem runAlone_of_over {w : World σ ρ} {result : Except Error ρ}
    (h : w.result? id = some result) (n : Nat) : runAlone refusal id n w = w := by
  have hnext : nextAlone refusal id w = w := by
    unfold result? at h
    split at h
    · rename_i value stage htask
      simp only [nextAlone, htask, advance]
    · rename_i e stage htask
      simp only [nextAlone, htask, advance]
    · cases h
  induction n with
  | zero => rfl
  | succ n ih => rw [runAlone, hnext, ih]

theorem returns_of_leads {w v : World σ ρ} {p : Procedure ρ} {result : Except Error ρ}
    (h : Leads refusal id (w.resume id p) v) (hresult : v.result? id = some result) :
    Returns refusal id w p result := by
  obtain ⟨n, rfl⟩ := h
  refine ⟨n, fun m hm => ?_⟩
  obtain ⟨k, rfl⟩ := Nat.exists_eq_add_of_le hm
  rw [runAlone_add, runAlone_of_over hresult, hresult]

theorem Returns.unique {w : World σ ρ} {p : Procedure ρ} {result result' : Except Error ρ}
    (h : Returns refusal id w p result) (h' : Returns refusal id w p result') :
    result = result' := by
  obtain ⟨m, hm⟩ := h
  obtain ⟨n, hn⟩ := h'
  have hend := hm (m + n) (Nat.le_add_right m n)
  rw [hn (m + n) (Nat.le_add_left n m), Option.some.injEq] at hend
  exact hend.symm

/-! ## What a run alone keeps -/

/-- The world `v` has what a task that began in `w` relies on.  Whatever is resident or has been
answered is what the store kept, and entries that were up to date are still there. -/
structure Undisturbed (w v : World σ ρ) : Prop where
  graph : v.graph = w.graph
  graphFault : v.graphFault = w.graphFault
  stored : ∀ role, v.stored role = w.stored role
  generation : ∀ role, v.cache.generation role = w.cache.generation role
  resident : ∀ role entry, v.cache.entry? role = some entry →
    w.stored role = .ok entry.whitelist
  answered : ∀ role generation answer waiters,
    v.cache.flight? role = some ⟨.answered generation answer, waiters⟩ → answer = w.stored role
  kept : ∀ role entry, w.cache.entry? role = some entry →
    entry.generation = w.cache.generation role → v.cache.entry? role = some entry

variable {w v : World σ ρ} {role : Role}

theorem Undisturbed.of_eq {v' : World σ ρ} (h : Undisturbed w v) (hgraph : v'.graph = v.graph)
    (hfault : v'.graphFault = v.graphFault) (hstore : v'.store = v.store)
    (hcache : v'.cache = v.cache) : Undisturbed w v' := by
  refine ⟨by rw [hgraph, h.graph], by rw [hfault, h.graphFault], fun r => ?_, ?_, ?_, ?_, ?_⟩
  · rw [World.stored, hstore]
    exact h.stored r
  all_goals rw [hcache]
  · exact h.generation
  · exact h.resident
  · exact h.answered
  · exact h.kept

theorem Undisturbed.setTask (h : Undisturbed w v) (t : Task ρ) : Undisturbed w (v.setTask id t) :=
  h.of_eq rfl rfl rfl rfl

theorem Undisturbed.resume (h : Undisturbed w v) (p : Procedure ρ) :
    Undisturbed w (v.resume id p) :=
  h.of_eq rfl rfl rfl rfl

theorem Undisturbed.rolesOf (h : Undisturbed w v) (user : Role) :
    v.rolesOf user = w.rolesOf user := by
  rw [World.rolesOf, World.rolesOf, h.graph, h.graphFault]

theorem Undisturbed.join (h : Undisturbed w v) (role : Role) :
    Undisturbed w { v with cache := v.cache.join role id } := by
  refine ⟨h.graph, h.graphFault, h.stored, h.generation, h.resident, ?_, h.kept⟩
  intro r generation answer waiters hflight
  change (v.cache.join role id).flight? r = _ at hflight
  rw [Cache.flight?_join] at hflight
  by_cases hr : role = r
  · rw [if_pos hr, Option.some.injEq, Cache.Flight.mk.injEq] at hflight
    cases hf : v.cache.flight? r with
    | none =>
      rw [hf] at hflight
      cases hflight.1
    | some f =>
      rw [hf] at hflight
      refine h.answered r generation answer f.waiters ?_
      rw [hf, ← hflight.1]
      rfl
  · rw [if_neg hr] at hflight
    exact h.answered r generation answer waiters hflight

theorem Undisturbed.discard (h : Undisturbed w v)
    (hold : ∀ entry, w.cache.entry? role = some entry →
      entry.generation ≠ w.cache.generation role) :
    Undisturbed w { v with cache := v.cache.discard (.role role) } := by
  refine ⟨h.graph, h.graphFault, h.stored, fun r => ?_, fun r entry hentry => ?_,
    fun r generation answer waiters hflight => ?_, fun r entry hentry hgen => ?_⟩
  · rw [← h.generation r]
    simp only [Cache.generation, Cache.epoch_discard, Cache.counter_discard]
  · change Cache.entry? (v.cache.discard (.role role)) r = _ at hentry
    rw [Cache.entry?_discard] at hentry
    split at hentry
    · cases hentry
    · exact h.resident r entry hentry
  · change (v.cache.discard (.role role)).flight? r = _ at hflight
    rw [Cache.flight?_discard] at hflight
    exact h.answered r generation answer waiters hflight
  · show Cache.entry? (v.cache.discard (.role role)) r = _
    rw [Cache.entry?_discard]
    split
    · rename_i hr
      have hr : role = r := hr
      subst hr
      exact absurd hgen (hold entry hentry)
    · exact h.kept r entry hentry hgen

end World
end AuditTrail
