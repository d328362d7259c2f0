import AuditTrail.Proofs.Decision.Exactness
import AuditTrail.Proofs.Store.Refinement

/-!
# More exemptions exempt more

A decision walks through the closure of the user, the lineage of the resource and the permissions of
the record.  `Exempt` says what comes of the three walks without their order, so it can be carried
from one world to another: grants are only ever added to the closure, a resource further down has
the same scopes around it and more, and of fewer permissions each is one of the former.
-/

namespace AuditTrail

namespace World

variable {σ σ' ρ : Type} [WhitelistStore σ] [WhitelistStore σ']

/-- The cache holds nothing but what the store keeps, neither as an entry nor as the answer of a
load in flight. -/
structure Coherent (w : World σ ρ) : Prop where
  resident : ∀ role entry, w.cache.entry? role = some entry →
    w.stored role = .ok entry.whitelist
  answered : ∀ role generation answer waiters,
    w.cache.flight? role = some ⟨.answered generation answer, waiters⟩ → answer = w.stored role

theorem coherent_of_new {w : World σ ρ} {retains : Bool} (h : w.cache = Cache.new retains) :
    w.Coherent where
  resident role entry hentry := by simp [h, Cache.new, Cache.entry?] at hentry
  answered role generation answer waiters hflight := by
    simp [h, Cache.new, Cache.flight?] at hflight

theorem Coherent.undisturbed {w : World σ ρ} (h : w.Coherent) : w.Undisturbed w where
  graph := rfl
  graphFault := rfl
  stored _ := rfl
  generation _ := rfl
  resident := h.resident
  answered := h.answered
  kept _ _ hentry _ := hentry

theorem Coherent.keep {w : World σ ρ} (h : w.Coherent) {role : Role} {entry : Cache.Entry}
    (hstored : w.stored role = .ok entry.whitelist) :
    Coherent { w with cache := w.cache.keep role entry } where
  resident r found hfound := by
    rw [Cache.entry?_keep] at hfound
    split at hfound
    · rename_i hr
      cases hfound
      rw [← hr.2]
      exact hstored
    · exact h.resident r found hfound
  answered r generation answer waiters hflight := by
    rw [Cache.flight?_keep] at hflight
    exact h.answered r generation answer waiters hflight

/-- Every direct grant and every exemption of `w` is one of `w'` too. -/
structure Extends (w' : World σ' ρ) (w : World σ ρ) : Prop where
  grants : ∀ a b, w.graph.Grants a b → w'.graph.Grants a b
  exemptions : ∀ role scope p whitelist, w.stored role = .ok whitelist →
    whitelist.permits scope p = true →
      ∃ whitelist', w'.stored role = .ok whitelist' ∧ whitelist'.permits scope p = true

theorem Extends.refl (w : World σ ρ) : w.Extends w where
  grants _ _ hab := hab
  exemptions _ _ _ whitelist hstored hpermits := ⟨whitelist, hstored, hpermits⟩

theorem Extends.grantRole {w : World σ ρ} {w' : World σ' ρ} (h : w'.Extends w)
    (grantee granted : Role) :
    Extends { w' with graph := w'.graph.grant grantee granted } w where
  grants a b hab := RoleGraph.grants_grant_iff.2 (Or.inl (h.grants a b hab))
  exemptions := h.exemptions

theorem stored_grant (w : World MemoryStore ρ) (role other : Role) (r : Resource)
    (ps : List Permission) :
    World.stored { w with store := w.store.grant role r ps } other =
      .ok (Function.update w.store.whitelistOf role ((w.store.whitelistOf role).grant r ps)
        other) := by
  rw [← MemoryStore.whitelistOf_grant]
  rfl

theorem Extends.grant {w : World σ ρ} {w' : World MemoryStore ρ} (h : w'.Extends w)
    (role : Role) (r : Resource) (ps : List Permission) :
    Extends { w' with store := w'.store.grant role r ps } w where
  grants := h.grants
  exemptions x scope p whitelist hstored hpermits := by
    obtain ⟨whitelist', hstored', hpermits'⟩ := h.exemptions x scope p whitelist hstored hpermits
    have hx : w'.store.whitelistOf x = whitelist' := by
      rw [World.stored] at hstored'
      exact Except.ok.inj hstored'
    refine ⟨_, stored_grant w' role x r ps, ?_⟩
    by_cases hrole : x = role
    · subst hrole
      rw [Function.update_self, hx]
      exact Whitelist.permits_grant_iff.2 (Or.inl hpermits')
    · rw [Function.update_of_ne hrole, hx]
      exact hpermits'

/-- Roles can be looked up, and no load of a role that the user holds fails. -/
structure LookupsSucceed (w : World σ ρ) (refusal : Role → Option Error) (user : Role) : Prop where
  graph : w.graphFault = none
  loads : ∀ x, w.graph.Reaches user x → ¬ w.LoadFails refusal x

end World

/-- The same user asks for no more permissions, on the resource or somewhere below it. -/
structure Record.Narrows (r' r : Record) : Prop where
  user : r'.user = r.user
  resource : r'.resource.isWithin r.resource = true
  permissions : ∀ p ∈ r'.permissions, p ∈ r.permissions

namespace Decision

open World (Returns)

section Runs

variable {σ : Type} [WhitelistStore σ] [KeepsAnswers σ] {w : World σ Bool}
  {refusal : Role → Option Error} {id : TaskId} {order : List Role → List Role} {record : Record}

theorem exempt_iff_of_returns {b : Bool} (hcoherent : w.Coherent)
    (horder : ∀ l x, x ∈ order l ↔ x ∈ l)
    (h : Returns refusal id w (decideIn order record) (.ok b)) : b = true ↔ Exempt w record := by
  obtain ⟨result, hreturns, hexplained⟩ :=
    exists_returns refusal id record horder hcoherent.undisturbed
  rw [hreturns.unique h] at hexplained
  exact hexplained

/-- Where every look-up gives an answer, an exempt record is found to be exempt. -/
theorem returns_true_of_exempt (hcoherent : w.Coherent) (horder : ∀ l x, x ∈ order l ↔ x ∈ l)
    (hsucceed : w.LookupsSucceed refusal record.user) (hexempt : Exempt w record) :
    Returns refusal id w (decideIn order record) (.ok true) := by
  obtain ⟨result, hreturns, hexplained⟩ :=
    exists_returns refusal id record horder hcoherent.undisturbed
  cases result with
  | ok b =>
    rw [← hexplained.2 hexempt]
    exact hreturns
  | error e =>
    rcases hexplained with hroles | ⟨x, hx, hfails, -⟩
    · rw [World.rolesOf, hsucceed.graph] at hroles
      cases hroles
    · exact absurd hfails (hsucceed.loads x hx)

end Runs

section Monotonicity

variable {σ σ' : Type} [WhitelistStore σ] [WhitelistStore σ'] {w : World σ Bool}
  {w' : World σ' Bool} {refusal refusal' : Role → Option Error} {id id' : TaskId}
  {order order' : List Role → List Role} {record record' : Record}

theorem Exempt.mono (h : Exempt w record) (hworld : w'.Extends w)
    (hrecord : record'.Narrows record) : Exempt w' record' := by
  intro p hp
  obtain ⟨x, scope, whitelist, hreaches, hscope, hstored, hpermits⟩ :=
    h p (hrecord.permissions p hp)
  obtain ⟨whitelist', hstored', hpermits'⟩ :=
    hworld.exemptions x scope p whitelist hstored hpermits
  refine ⟨x, scope, whitelist', ?_, ?_, hstored', hpermits'⟩
  · rw [hrecord.user]
    exact hreaches.mono hworld.grants
  · exact Resource.isWithin_trans hrecord.resource hscope

/-- Let a record be found exempt, whatever the cache has of what the store keeps.  Where there are
at least the same grants and exemptions, a record of the same user that asks for no more, on the
resource or below it, is never found not to be exempt; and it is found exempt unless a look-up
fails. -/
theorem decide_mono [KeepsAnswers σ] [KeepsAnswers σ'] (hcoherent : w.Coherent)
    (hcoherent' : w'.Coherent) (horder : ∀ l x, x ∈ order l ↔ x ∈ l)
    (horder' : ∀ l x, x ∈ order' l ↔ x ∈ l) (hworld : w'.Extends w)
    (hrecord : record'.Narrows record)
    (h : Returns refusal id w (decideIn order record) (.ok true)) :
    ¬ Returns refusal' id' w' (decideIn order' record') (.ok false) ∧
      (w'.LookupsSucceed refusal' record'.user →
        Returns refusal' id' w' (decideIn order' record') (.ok true)) := by
  have hexempt : Exempt w record := (exempt_iff_of_returns hcoherent horder h).1 rfl
  have hexempt' : Exempt w' record' := hexempt.mono hworld hrecord
  refine ⟨fun hfalse => ?_, fun hsucceed => ?_⟩
  · have htrue : false = true := (exempt_iff_of_returns hcoherent' horder' hfalse).2 hexempt'
    cases htrue
  · exact returns_true_of_exempt hcoherent' horder' hsucceed hexempt'

end Monotonicity

namespace Broadened

open Sample SampleRole

/-- Nothing has been loaded. -/
def world : World MemoryStore Bool where
  graph := graph
  graphFault := none
  store := .grant .empty auditor .data [.select, .modify]
  cache := .new true
  sink := {}
  tasks := ∅

/-- The two roles hold each other, and the user's own whitelist has an entry for the table. -/
def broader : World MemoryStore Bool :=
  { world with
    graph := world.graph.grant auditor user
    store := world.store.grant user (.table "ks" "tbl") [.select] }

/-- The whitelist of the auditor is resident. -/
def warmed : World MemoryStore Bool :=
  { broader with cache := broader.cache.keep auditor ⟨⟨0, 0⟩, exempt⟩ }

/-- A part of the table, with one permission of the two. -/
def narrower : Record :=
  { record with
    resource := ⟨"data/ks/tbl/column"⟩
    permissions := PermissionSet.ofList [.select]
    required := rfl }

theorem lookupsSucceed (w : World MemoryStore Bool) (h : w.graphFault = none) (x : Role) :
    w.LookupsSucceed (fun _ => none) x where
  graph := h
  loads role _ hfails := by
    obtain ⟨e, he⟩ := hfails
    cases he

theorem exempt_record : Exempt world record := by
  have hall : ∀ p ∈ record.permissions.toList, exempt.permits .data p = true := by decide +kernel
  intro p hp
  refine ⟨auditor, .data, exempt, ?_, by decide +kernel, by decide +kernel, hall p hp⟩
  exact Relation.ReflTransGen.single (show world.graph.holds _ _ = true by decide +kernel)

theorem coherent_warmed : warmed.Coherent :=
  World.Coherent.keep (World.coherent_of_new rfl) (by decide +kernel)

theorem extends_warmed : warmed.Extends world := by
  have hbroader : broader.Extends world :=
    ((World.Extends.refl world).grantRole auditor user).grant user (.table "ks" "tbl") [.select]
  exact ⟨hbroader.grants, hbroader.exemptions⟩

theorem narrows_narrower : narrower.Narrows record where
  user := rfl
  resource := by decide +kernel
  permissions := by
    have h : ∀ p ∈ narrower.permissions.toList, p ∈ record.permissions.toList := by decide
    exact h

end Broadened

open Sample SampleRole Broadened in
theorem decide_mono_broadened :
    Returns (fun _ => none) 0 Broadened.world (decideIn id record) (.ok true) ∧
      Returns (fun _ => none) 1 warmed (decideIn List.reverse narrower) (.ok true) := by
  have hcold : Broadened.world.Coherent := World.coherent_of_new rfl
  have hfirst : Returns (fun _ => none) 0 Broadened.world (decideIn id record) (.ok true) :=
    returns_true_of_exempt hcold (fun _ _ => Iff.rfl) (lookupsSucceed _ rfl _) exempt_record
  refine ⟨hfirst, (decide_mono hcold coherent_warmed (fun _ _ => Iff.rfl)
    (fun _ _ => List.mem_reverse) extends_warmed narrows_narrower hfirst).2 ?_⟩
  exact lookupsSucceed _ rfl _

end Decision
end AuditTrail
