import AuditTrail.Cache

/-!
# What the changes to a cache show

One lemma for each change and each thing that can be looked up: the entry and the load in flight of
a role, its counter, the epoch, and whether entries are kept.  Later proofs use these and do not
open the changes.
-/

namespace AuditTrail

def Scope.Reaches : Scope → Role → Prop
  | .role r, held => r = held
  | .everything, _ => True

instance : (scope : Scope) → (held : Role) → Decidable (scope.Reaches held)
  | .role r, held => inferInstanceAs (Decidable (r = held))
  | .everything, _ => .isTrue trivial

namespace Cache

/-! ## Bumping -/

@[simp] theorem entry?_bump (c : Cache) (scope : Scope) (role : Role) :
    Cache.entry? (c.bump scope) role = c.entry? role := by
  cases scope <;> rfl

@[simp] theorem flight?_bump (c : Cache) (scope : Scope) (role : Role) :
    (c.bump scope).flight? role = c.flight? role := by
  cases scope <;> rfl

theorem counter_bump (c : Cache) (scope : Scope) (role : Role) :
    (c.bump scope).counter role =
      if scope = .role role then c.counter role + 1 else c.counter role := by
  cases scope with
  | role r =>
    simp only [bump, counter, Std.ExtTreeMap.getD_insert, Std.compare_eq_iff_eq, Scope.role.injEq]
    by_cases h : r = role
    · subst h
      simp
    · simp [h]
  | everything => simp [bump, counter]

theorem epoch_bump (c : Cache) (scope : Scope) :
    (c.bump scope).epoch = if scope = .everything then c.epoch + 1 else c.epoch := by
  cases scope <;> rfl

theorem generation_bump_of_not_reaches {c : Cache} {scope : Scope} {role : Role}
    (h : ¬ scope.Reaches role) : (c.bump scope).generation role = c.generation role := by
  have hrole : scope ≠ .role role := by
    rintro rfl
    exact h rfl
  have hall : scope ≠ .everything := by
    rintro rfl
    exact h trivial
  rw [generation, generation, counter_bump, epoch_bump, if_neg hrole, if_neg hall]

@[simp] theorem retains_bump (c : Cache) (scope : Scope) : (c.bump scope).retains = c.retains := by
  cases scope <;> rfl

/-! ## Taking entries out -/

theorem entry?_discard (c : Cache) (scope : Scope) (role : Role) :
    Cache.entry? (c.discard scope) role = if scope.Reaches role then none else c.entry? role := by
  cases scope with
  | role r =>
    by_cases h : r = role <;>
      simp [discard, entry?, Std.ExtTreeMap.getElem?_erase, Scope.Reaches, h]
  | everything => simp [discard, entry?, Scope.Reaches]

@[simp] theorem flight?_discard (c : Cache) (scope : Scope) (role : Role) :
    (c.discard scope).flight? role = c.flight? role := by
  cases scope <;> rfl

@[simp] theorem counter_discard (c : Cache) (scope : Scope) (role : Role) :
    (c.discard scope).counter role = c.counter role := by
  cases scope <;> rfl

@[simp] theorem epoch_discard (c : Cache) (scope : Scope) : (c.discard scope).epoch = c.epoch := by
  cases scope <;> rfl

@[simp] theorem generation_discard (c : Cache) (scope : Scope) (role : Role) :
    (c.discard scope).generation role = c.generation role := by
  cases scope <;> rfl

@[simp] theorem retains_discard (c : Cache) (scope : Scope) :
    (c.discard scope).retains = c.retains := by
  cases scope <;> rfl

/-! ## Keeping an entry -/

theorem entry?_keep (c : Cache) (role r : Role) (entry : Entry) :
    Cache.entry? (c.keep role entry) r =
      if c.retains = true ∧ role = r then some entry else c.entry? r := by
  unfold keep
  cases hretains : c.retains with
  | false => simp
  | true => simp [Cache.entry?, Std.ExtTreeMap.getElem?_insert]

@[simp] theorem flight?_keep (c : Cache) (role r : Role) (entry : Entry) :
    (c.keep role entry).flight? r = c.flight? r := by
  unfold keep
  split <;> rfl

@[simp] theorem counter_keep (c : Cache) (role r : Role) (entry : Entry) :
    (c.keep role entry).counter r = c.counter r := by
  unfold keep
  split <;> rfl

@[simp] theorem epoch_keep (c : Cache) (role : Role) (entry : Entry) :
    (c.keep role entry).epoch = c.epoch := by
  unfold keep
  split <;> rfl

@[simp] theorem retains_keep (c : Cache) (role : Role) (entry : Entry) :
    (c.keep role entry).retains = c.retains := by
  unfold keep
  split <;> rfl

/-! ## Loads in flight -/

theorem flight?_join (c : Cache) (role r : Role) (task : TaskId) :
    (c.join role task).flight? r =
      if role = r then
        some ⟨((c.flight? r).getD ⟨.begun, []⟩).stage,
          ((c.flight? r).getD ⟨.begun, []⟩).waiters ++ [task]⟩
      else c.flight? r := by
  simp only [join, flight?, Std.ExtTreeMap.getElem?_insert, Std.compare_eq_iff_eq]
  by_cases h : role = r
  · subst h
    simp
  · simp [h]

@[simp] theorem entry?_join (c : Cache) (role r : Role) (task : TaskId) :
    Cache.entry? (c.join role task) r = c.entry? r := rfl

@[simp] theorem counter_join (c : Cache) (role r : Role) (task : TaskId) :
    (c.join role task).counter r = c.counter r := rfl

@[simp] theorem epoch_join (c : Cache) (role : Role) (task : TaskId) :
    (c.join role task).epoch = c.epoch := rfl

@[simp] theorem retains_join (c : Cache) (role : Role) (task : TaskId) :
    (c.join role task).retains = c.retains := rfl

theorem flight?_setStage (c : Cache) (role r : Role) (stage : LoadStage) :
    (c.setStage role stage).flight? r =
      if role = r then (c.flight? r).map fun flight => ⟨stage, flight.waiters⟩
      else c.flight? r := by
  unfold setStage
  split
  · rename_i flight hflight
    by_cases h : role = r
    · subst h
      rw [if_pos rfl, hflight]
      simp [flight?]
    · simp [flight?, Std.ExtTreeMap.getElem?_insert, h]
  · rename_i hflight
    by_cases h : role = r
    · subst h
      simp [hflight]
    · simp [h]

@[simp] theorem entry?_setStage (c : Cache) (role r : Role) (stage : LoadStage) :
    Cache.entry? (c.setStage role stage) r = c.entry? r := by
  unfold setStage
  split <;> rfl

@[simp] theorem counter_setStage (c : Cache) (role r : Role) (stage : LoadStage) :
    (c.setStage role stage).counter r = c.counter r := by
  unfold setStage
  split <;> rfl

@[simp] theorem epoch_setStage (c : Cache) (role : Role) (stage : LoadStage) :
    (c.setStage role stage).epoch = c.epoch := by
  unfold setStage
  split <;> rfl

@[simp] theorem retains_setStage (c : Cache) (role : Role) (stage : LoadStage) :
    (c.setStage role stage).retains = c.retains := by
  unfold setStage
  split <;> rfl

theorem flight?_land (c : Cache) (role r : Role) :
    (c.land role).flight? r = if role = r then none else c.flight? r := by
  simp only [land, flight?, Std.ExtTreeMap.getElem?_erase, Std.compare_eq_iff_eq]

@[simp] theorem entry?_land (c : Cache) (role r : Role) :
    Cache.entry? (c.land role) r = c.entry? r := rfl

@[simp] theorem counter_land (c : Cache) (role r : Role) :
    (c.land role).counter r = c.counter r := rfl

@[simp] theorem epoch_land (c : Cache) (role : Role) : (c.land role).epoch = c.epoch := rfl

@[simp] theorem retains_land (c : Cache) (role : Role) : (c.land role).retains = c.retains := rfl

end Cache
end AuditTrail
