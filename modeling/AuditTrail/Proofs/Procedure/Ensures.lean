import AuditTrail.Procedure

/-!
# What a procedure ensures

`Answers` says which answers the collaborators may give, and `Ensures` that a procedure ends well
under all of them.  The condition is computed along the tree, so a specification of a procedure is
proved once and holds for whoever runs it.
-/

namespace AuditTrail.Procedure

variable {α β : Type}

/-- Which answers are allowed to each question. -/
structure Answers where
  closure : Role → Except Error (List Role) → Prop
  sorted : List Role → List Role → Prop
  whitelist : Role → Except Error Whitelist → Prop

/-- Whatever allowed answers the procedure gets, `Q` holds of its result.  The preparation of the
store and the sink may fail at any time. -/
def Ensures (A : Answers) (Q : Except Error α → Prop) : Procedure α → Prop
  | done value => Q (.ok value)
  | failed e => Q (.error e)
  | closure user next =>
    (∀ roles, A.closure user (.ok roles) → (next roles).Ensures A Q) ∧
      ∀ e, A.closure user (.error e) → Q (.error e)
  | residentFirst roles next => ∀ sorted, A.sorted roles sorted → (next sorted).Ensures A Q
  | whitelist role next =>
    (∀ w, A.whitelist role (.ok w) → (next w).Ensures A Q) ∧
      ∀ e, A.whitelist role (.error e) → Q (.error e)
  | setup next | append _ next => next.Ensures A Q ∧ ∀ e, Q (.error e)
  | bump _ next | discard _ next => next.Ensures A Q

/-- The procedure asks its collaborators and changes none of them. -/
def OnlyAsks : Procedure α → Prop
  | done _ | failed _ => True
  | closure _ next => ∀ roles, (next roles).OnlyAsks
  | residentFirst _ next => ∀ sorted, (next sorted).OnlyAsks
  | whitelist _ next => ∀ w, (next w).OnlyAsks
  | setup _ | append _ _ | bump _ _ | discard _ _ => False

/-- Under allowed answers the procedure has at most so many questions before it, and it asks for the
whitelists of these roles alone. -/
def Within (A : Answers) (roles : List Role) : Procedure α → Nat → Prop
  | done _, _ | failed _, _ => True
  | _, 0 => False
  | closure user next, n + 1 => ∀ l, A.closure user (.ok l) → (next l).Within A roles n
  | residentFirst l next, n + 1 => ∀ sorted, A.sorted l sorted → (next sorted).Within A roles n
  | whitelist role next, n + 1 =>
    role ∈ roles ∧ ∀ w, A.whitelist role (.ok w) → (next w).Within A roles n
  | setup next, n + 1 | append _ next, n + 1 | bump _ next, n + 1 | discard _ next, n + 1 =>
    next.Within A roles n

variable {A : Answers}

theorem Ensures.mono {P Q : Except Error α → Prop} {p : Procedure α} (h : p.Ensures A P)
    (himp : ∀ result, P result → Q result) : p.Ensures A Q := by
  induction p with
  | done value => exact himp _ h
  | failed e => exact himp _ h
  | closure user next ih =>
    exact ⟨fun roles hroles => ih roles (h.1 roles hroles), fun e he => himp _ (h.2 e he)⟩
  | residentFirst roles next ih => exact fun sorted hsorted => ih sorted (h sorted hsorted)
  | whitelist role next ih =>
    exact ⟨fun w hw => ih w (h.1 w hw), fun e he => himp _ (h.2 e he)⟩
  | setup next ih => exact ⟨ih h.1, fun e => himp _ (h.2 e)⟩
  | append line next ih => exact ⟨ih h.1, fun e => himp _ (h.2 e)⟩
  | bump scope next ih => exact ih h
  | discard scope next ih => exact ih h

/-- What a sequence ensures: the first part ends in a value from which the second ensures it. -/
theorem ensures_andThen {Q : Except Error β → Prop} {p : Procedure α} {f : α → Procedure β} :
    (p.andThen f).Ensures A Q ↔
      p.Ensures A fun
        | .ok value => (f value).Ensures A Q
        | .error e => Q (.error e) := by
  induction p with
  | done value => exact Iff.rfl
  | failed e => exact Iff.rfl
  | closure user next ih =>
    exact and_congr (forall_congr' fun roles => imp_congr_right fun _ => ih roles) Iff.rfl
  | residentFirst roles next ih =>
    exact forall_congr' fun sorted => imp_congr_right fun _ => ih sorted
  | whitelist role next ih =>
    exact and_congr (forall_congr' fun w => imp_congr_right fun _ => ih w) Iff.rfl
  | setup next ih => exact and_congr ih Iff.rfl
  | append line next ih => exact and_congr ih Iff.rfl
  | bump scope next ih => exact ih
  | discard scope next ih => exact ih

theorem OnlyAsks.andThen {p : Procedure α} {f : α → Procedure β} (hp : p.OnlyAsks)
    (hf : ∀ value, (f value).OnlyAsks) : (p.andThen f).OnlyAsks := by
  induction p with
  | done value => exact hf value
  | failed e => exact trivial
  | closure user next ih => exact fun roles => ih roles (hp roles)
  | residentFirst roles next ih => exact fun sorted => ih sorted (hp sorted)
  | whitelist role next ih => exact fun w => ih w (hp w)
  | setup next ih => exact hp
  | append line next ih => exact hp
  | bump scope next ih => exact hp
  | discard scope next ih => exact hp

end AuditTrail.Procedure
