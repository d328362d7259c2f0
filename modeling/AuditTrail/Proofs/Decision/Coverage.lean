import AuditTrail.Decision
import AuditTrail.Proofs.Procedure.Ensures
import AuditTrail.Proofs.Resource.Containment
import AuditTrail.Proofs.Role.Reachability
import AuditTrail.Proofs.Role.Sample

/-!
# What a decision comes to

The decision asks as few roles as it can, in whatever order it is given, and remembers what it has
seen.  `Faithful` is what it remembers: the whitelists seen and the roles not asked account for all
roles together.  From it the answer is that of `reference`, which reads every whitelist.
-/

namespace AuditTrail.Decision

open Procedure (Answers)

section Coverage

variable (stored : Role → Except Error Whitelist) (roles : List Role) (lineage : List Resource)

def CoveredBy (p : Permission) : Prop :=
  ∃ x ∈ roles, ∃ w, stored x = .ok w ∧ covers lineage p w = true

structure Faithful (progress : Progress) : Prop where
  seen : ∀ w ∈ progress.seen, ∃ x ∈ roles, stored x = .ok w
  unasked : ∀ x ∈ progress.unasked, x ∈ roles
  complete : ∀ x ∈ roles, x ∈ progress.unasked ∨ ∃ w ∈ progress.seen, stored x = .ok w

/-- What a search among the roles comes to. -/
def Searched (A : Answers) (fits : Whitelist → Bool) : Except Error (Option Progress) → Prop
  | .ok (some progress) => Faithful stored roles progress ∧ ∃ w ∈ progress.seen, fits w = true
  | .ok none => ∀ x ∈ roles, ∃ w, stored x = .ok w ∧ fits w = false
  | .error e => ∃ x ∈ roles, A.whitelist x (.error e)

/-- The value tells whether the condition holds, and an error is the answer to some role. -/
def Settles (A : Answers) (condition : Prop) : Except Error Bool → Prop
  | .ok b => b = true ↔ condition
  | .error e => ∃ x ∈ roles, A.whitelist x (.error e)

/-- The decision as it is made without a cache: every permission is looked up in the stored
whitelists of all roles of the user. -/
def reference (graph : RoleGraph) (stored : Role → Except Error Whitelist) (record : Record) :
    Bool :=
  record.permissions.toList.all fun p =>
    (graph.closure record.user).any fun x =>
      match stored x with
      | .ok w => covers record.resource.lineage p w
      | .error _ => false

end Coverage

variable {A : Answers} {stored : Role → Except Error Whitelist} {roles : List Role}
  {lineage : List Resource}

theorem Faithful.snoc {seen : List Whitelist} {x : Role} {rest : List Role} {w : Whitelist}
    (h : Faithful stored roles ⟨seen, x :: rest⟩) (hw : stored x = .ok w) :
    Faithful stored roles ⟨seen ++ [w], rest⟩ := by
  refine ⟨fun v hv => ?_, fun y hy => h.unasked y (List.mem_cons_of_mem x hy), fun y hy => ?_⟩
  · rcases List.mem_append.1 hv with hv | hv
    · exact h.seen v hv
    · rw [List.mem_singleton] at hv
      subst hv
      exact ⟨x, h.unasked x List.mem_cons_self, hw⟩
  · rcases h.complete y hy with hunasked | ⟨v, hv, hstored⟩
    · rcases List.mem_cons.1 hunasked with rfl | hrest
      · exact Or.inr ⟨w, List.mem_append_right seen (List.mem_singleton_self w), hw⟩
      · exact Or.inl hrest
    · exact Or.inr ⟨v, List.mem_append_left [w] hv, hstored⟩

theorem ensures_askUntil {fits : Whitelist → Bool} {seen : List Whitelist} {unasked : List Role}
    (hA : ∀ x ∈ roles, ∀ w, A.whitelist x (.ok w) → stored x = .ok w)
    (hfaithful : Faithful stored roles ⟨seen, unasked⟩) (hmiss : ∀ w ∈ seen, fits w = false) :
    (askUntil fits seen unasked).Ensures A (Searched stored roles A fits) := by
  induction unasked generalizing seen with
  | nil =>
    show ∀ x ∈ roles, ∃ w, stored x = .ok w ∧ fits w = false
    intro x hx
    rcases hfaithful.complete x hx with hnil | ⟨w, hw, hstored⟩
    · cases hnil
    · exact ⟨w, hstored, hmiss w hw⟩
  | cons x rest ih =>
    have hx : x ∈ roles := hfaithful.unasked x List.mem_cons_self
    refine ⟨fun w hw => ?_, fun e he => ⟨x, hx, he⟩⟩
    have hnext : Faithful stored roles ⟨seen ++ [w], rest⟩ := hfaithful.snoc (hA x hx w hw)
    show (if fits w = true then Procedure.done (some ⟨seen ++ [w], rest⟩)
      else askUntil fits (seen ++ [w]) rest).Ensures A _
    cases hfits : fits w with
    | true =>
      rw [if_pos rfl]
      exact ⟨hnext, w, List.mem_append_right seen (List.mem_singleton_self w), hfits⟩
    | false =>
      rw [if_neg Bool.false_ne_true]
      refine ih hnext fun v hv => ?_
      rcases List.mem_append.1 hv with hv | hv
      · exact hmiss v hv
      · rw [List.mem_singleton] at hv
        rw [hv, hfits]

theorem ensures_coverAll {progress : Progress} {ps : List Permission}
    (hA : ∀ x ∈ roles, ∀ w, A.whitelist x (.ok w) → stored x = .ok w)
    (hfaithful : Faithful stored roles progress) :
    (coverAll lineage progress ps).Ensures A
      (Settles roles A (∀ p ∈ ps, CoveredBy stored roles lineage p)) := by
  induction ps generalizing progress with
  | nil => simp [coverAll, Procedure.Ensures, Settles]
  | cons p ps ih =>
    have hgo {next : Progress} (hnext : Faithful stored roles next)
        (hseen : ∃ w ∈ next.seen, covers lineage p w = true) :
        (coverAll lineage next ps).Ensures A
          (Settles roles A (∀ q ∈ p :: ps, CoveredBy stored roles lineage q)) := by
      obtain ⟨w, hw, hcovers⟩ := hseen
      obtain ⟨x, hx, hstored⟩ := hnext.seen w hw
      have hp : CoveredBy stored roles lineage p := ⟨x, hx, w, hstored, hcovers⟩
      simpa only [List.forall_mem_cons, hp, true_and] using ih hnext
    rw [coverAll]
    cases hany : progress.seen.any (covers lineage p) with
    | true =>
      rw [if_pos rfl]
      exact hgo hfaithful (List.any_eq_true.1 hany)
    | false =>
      rw [if_neg Bool.false_ne_true, Procedure.ensures_andThen]
      refine (ensures_askUntil hA hfaithful fun w hw => ?_).mono ?_
      · exact Bool.eq_false_iff.2 fun hcovers =>
          Bool.eq_false_iff.1 hany (List.any_eq_true.2 ⟨w, hw, hcovers⟩)
      · intro result hresult
        match result, hresult with
        | .ok (some next), ⟨hnext, hseen⟩ => exact hgo hnext hseen
        | .error e, herror => exact herror
        | .ok none, hmiss =>
          -- no role covers `p`, so not all permissions are covered
          refine ⟨fun h => absurd h Bool.false_ne_true, fun hall => ?_⟩
          obtain ⟨x, hx, w, hstored, hcovers⟩ := hall p List.mem_cons_self
          obtain ⟨v, hv, hfits⟩ := hmiss x hx
          rw [hstored] at hv
          cases hv
          rw [hfits] at hcovers
          cases hcovers

theorem ensures_amongRoles {sorted : List Role} (record : Record)
    (hmem : ∀ x, x ∈ sorted ↔ x ∈ roles)
    (hA : ∀ x ∈ roles, ∀ w, A.whitelist x (.ok w) → stored x = .ok w) :
    (amongRoles record sorted).Ensures A (Settles roles A
      (∀ p ∈ record.permissions, CoveredBy stored roles record.resource.lineage p)) := by
  have hfaithful : Faithful stored roles ⟨[], sorted⟩ := by
    refine ⟨fun w hw => ?_, fun x hx => (hmem x).1 hx, fun x hx => Or.inl ((hmem x).2 hx)⟩
    cases hw
  exact ensures_coverAll hA hfaithful

/-- The decision settles whether all permissions are covered, in whatever order the roles come. -/
theorem ensures_decideIn (stored : Role → Except Error Whitelist) (record : Record)
    {order : List Role → List Role} (horder : ∀ l x, x ∈ order l ↔ x ∈ l)
    (hclosure : ∀ l, A.closure record.user (.ok l) → ∀ x, x ∈ l ↔ x ∈ roles)
    (hsorted : ∀ l m, A.sorted l m → ∀ x, x ∈ m ↔ x ∈ l)
    (hA : ∀ x ∈ roles, ∀ w, A.whitelist x (.ok w) → stored x = .ok w) :
    (decideIn order record).Ensures A fun result =>
      (∃ e, result = .error e ∧ A.closure record.user (.error e)) ∨
        Settles roles A
          (∀ p ∈ record.permissions, CoveredBy stored roles record.resource.lineage p) result := by
  refine ⟨fun l hl => ?_, fun e he => Or.inl ⟨e, rfl, he⟩⟩
  intro sorted hsort
  have hmem (x : Role) : x ∈ sorted ↔ x ∈ roles := by
    rw [hsorted _ _ hsort x, horder, hclosure l hl]
  exact (ensures_amongRoles record hmem hA).mono fun result h => Or.inr h

/-! ## The reference -/

theorem covers_iff {p : Permission} {w : Whitelist} :
    covers lineage p w = true ↔ ∃ scope ∈ lineage, w.permits scope p = true := by
  rw [covers, List.any_eq_true]

theorem reference_iff {graph : RoleGraph} {record : Record} :
    reference graph stored record = true ↔ ∀ p ∈ record.permissions,
      CoveredBy stored (graph.closure record.user) record.resource.lineage p := by
  rw [reference, List.all_eq_true]
  refine forall_congr' fun p => imp_congr_right fun _ => ?_
  rw [List.any_eq_true]
  refine exists_congr fun x => and_congr_right fun _ => ?_
  cases hx : stored x with
  | ok w => simp
  | error e => simp

/-- A value that tells whether everything is covered is the value of the reference. -/
theorem eq_reference_of_settles {graph : RoleGraph} {record : Record} {b : Bool}
    (h : Settles (graph.closure record.user) A
      (∀ p ∈ record.permissions,
        CoveredBy stored (graph.closure record.user) record.resource.lineage p) (.ok b)) :
    b = reference graph stored record := by
  rw [Bool.eq_iff_iff, reference_iff]
  exact h

/-- Coverage said of grants and containment: a role within reach exempts a scope around the
resource. -/
theorem coveredBy_closure_iff {graph : RoleGraph} {user : Role} {resource : Resource}
    {p : Permission} :
    CoveredBy stored (graph.closure user) resource.lineage p ↔
      ∃ x scope w, graph.Reaches user x ∧ resource.isWithin scope = true ∧ stored x = .ok w ∧
        w.permits scope p = true := by
  constructor
  · rintro ⟨x, hx, w, hstored, hcovers⟩
    obtain ⟨scope, hscope, hpermits⟩ := covers_iff.1 hcovers
    exact ⟨x, scope, w, RoleGraph.mem_closure_iff.1 hx, Resource.mem_lineage_iff.1 hscope, hstored,
      hpermits⟩
  · rintro ⟨x, scope, w, hx, hscope, hstored, hpermits⟩
    exact ⟨x, RoleGraph.mem_closure_iff.2 hx, w, hstored,
      covers_iff.2 ⟨scope, Resource.mem_lineage_iff.2 hscope, hpermits⟩⟩

namespace Sample

open SampleRole

def graph : RoleGraph := .grant .empty user auditor

def exempt : Whitelist := Whitelist.empty.grant .data [.select, .modify]

def record : Record where
  user := user
  client := .v4 #v[10, 0, 0, 1]
  resource := .table "ks" "tbl"
  permissions := PermissionSet.ofList [.select, .modify]
  required := by decide
  status := .attempt
  operation := "UPDATE"
  batchId := none
  timestamp := 0

theorem closure_user : graph.closure user = [user, auditor] := by
  rw [RoleGraph.closure, RoleGraph.visit, dif_neg (by decide), dif_pos (by decide +kernel)]
  have hgranted : [] ++ (graph.grantedTo user).filter (· ∉ [] ++ [user]) = [auditor] := by
    decide +kernel
  rw [hgranted, RoleGraph.visit, dif_neg (by decide), dif_neg (by decide +kernel), RoleGraph.visit]
  rfl

end Sample

end AuditTrail.Decision
