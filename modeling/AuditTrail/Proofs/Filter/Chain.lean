import AuditTrail.Filter

/-!
# Chains are flat

A chain may hold chains.  However they are nested, the tree is walked as the list of its leaves from
left to right (`isFiltered_eq_anyM`, `setup_eq_forM`), whatever it means to call a leaf.

What a walk does is said of leaves that answer as they like, at each call anew, and of the log of
the calls (`Responses`).  Leaf after leaf is called as long as they let the walk go on.  The outcome
of the first one that does not is the outcome of the tree, and no leaf after it is called
(`tree_walks`).
-/

namespace AuditTrail.FilterTree

/-! ## The list of the leaves -/

section Leaves

variable {ι : Type} {m : Type → Type} [Monad m] [LawfulMonad m]

/-- The chain whose members are the leaves of the tree. -/
def flat (f : FilterTree ι) : FilterTree ι := .chain (f.leaves.map leaf)

theorem leavesAll_map_leaf (row : List ι) : leavesAll (row.map leaf) = row := by
  induction row with
  | nil => rfl
  | cons i row ih => rw [List.map_cons, leavesAll, leaves, ih, List.singleton_append]

theorem leaves_flat (f : FilterTree ι) : f.flat.leaves = f.leaves := leavesAll_map_leaf f.leaves

theorem anyM_append (ask : ι → m Bool) (front back : List ι) :
    (front ++ back).anyM ask =
      (do if ← front.anyM ask then pure true else back.anyM ask) := by
  induction front with
  | nil => simp
  | cons i front ih =>
    rw [List.cons_append, List.anyM_cons, List.anyM_cons, ih, bind_assoc]
    refine bind_congr fun suppressed => ?_
    cases suppressed <;> simp

mutual

theorem isFiltered_eq_anyM (ask : ι → m Bool) (f : FilterTree ι) :
    f.isFiltered ask = f.leaves.anyM ask := by
  cases f with
  | leaf i =>
    rw [isFiltered, leaves, List.anyM_cons]
    refine (bind_pure (ask i)).symm.trans (bind_congr fun suppressed => ?_)
    cases suppressed <;> rfl
  | chain members => exact anyFiltered_eq_anyM ask members

theorem anyFiltered_eq_anyM (ask : ι → m Bool) (fs : List (FilterTree ι)) :
    anyFiltered ask fs = (leavesAll fs).anyM ask := by
  cases fs with
  | nil => rfl
  | cons f fs =>
    rw [anyFiltered, leavesAll, anyM_append, isFiltered_eq_anyM ask f, anyFiltered_eq_anyM ask fs]

end

mutual

theorem setup_eq_forM (prepare : ι → m Unit) (f : FilterTree ι) :
    f.setup prepare = f.leaves.forM prepare := by
  cases f with
  | leaf i =>
    rw [setup, leaves, List.forM_eq_forM, List.forM_cons, List.forM_nil]
    exact (bind_pure (prepare i)).symm
  | chain members => exact setupAll_eq_forM prepare members

theorem setupAll_eq_forM (prepare : ι → m Unit) (fs : List (FilterTree ι)) :
    setupAll prepare fs = (leavesAll fs).forM prepare := by
  cases fs with
  | nil => rfl
  | cons f fs =>
    rw [setupAll, leavesAll, List.forM_eq_forM, List.forM_append, setup_eq_forM prepare f,
      setupAll_eq_forM prepare fs]
    rfl

end

end Leaves

/-! ## Walks -/

section Walks

variable {ι κ ε α : Type}

/-- A leaf answers with a view to all the calls before, and the call is put on the log. -/
def watched (call : ι → κ) (answer : List κ → ι → Except ε α) (i : ι) :
    ExceptT ε (StateM (List κ)) α :=
  fun log => (answer log i, log ++ [call i])

/-- Each of the leaves lets the walk go on when they are called in turn. -/
def Passed (call : ι → κ) (answer : List κ → ι → Except ε α) (go : α) : List κ → List ι → Prop
  | _, [] => True
  | log, i :: rest => answer log i = .ok go ∧ Passed call answer go (log ++ [call i]) rest

/-- What comes of a row of leaves: the outcome, and the log when it has been walked.  The first leaf
that does not let the walk go on is the last one that is called. -/
inductive Walked (call : ι → κ) (answer : List κ → ι → Except ε α) (go : α) (log : List κ)
    (row : List ι) : Except ε α × List κ → Prop
  | through (h : Passed call answer go log row) :
    Walked call answer go log row (.ok go, log ++ row.map call)
  | stopped {before i after} (hrow : row = before ++ i :: after)
    (hbefore : Passed call answer go log before)
    (hstop : answer (log ++ before.map call) i ≠ .ok go) :
    Walked call answer go log row
      (answer (log ++ before.map call) i, log ++ before.map call ++ [call i])

variable {call : ι → κ} {answer : List κ → ι → Except ε α} {go : α} {log : List κ} {i : ι}
  {row : List ι} {result : Except ε α × List κ}

theorem walked_nil_iff : Walked call answer go log [] result ↔ (.ok go, log) = result := by
  constructor
  · intro h
    cases h with
    | through h => rw [List.map_nil, List.append_nil]
    | @stopped before i after hrow => cases before <;> cases hrow
  · rintro rfl
    have hwalked : Walked call answer go log [] _ := .through trivial
    rwa [List.map_nil, List.append_nil] at hwalked

/-- A leaf that lets the walk go on leaves it to the others. -/
theorem walked_cons_iff_of_eq (h : answer log i = .ok go) :
    Walked call answer go log (i :: row) result ↔
      Walked call answer go (log ++ [call i]) row result := by
  have hlog (front : List ι) :
      log ++ (i :: front).map call = log ++ [call i] ++ front.map call := by simp
  constructor
  · intro hwalked
    cases hwalked with
    | through hpassed =>
      rw [hlog]
      exact .through hpassed.2
    | @stopped before j after hrow hbefore hstop =>
      cases before with
      | nil =>
        cases hrow
        rw [List.map_nil, List.append_nil] at hstop
        exact absurd h hstop
      | cons first before =>
        cases hrow
        rw [hlog] at hstop ⊢
        exact .stopped rfl hbefore.2 hstop
  · intro hwalked
    cases hwalked with
    | through hpassed =>
      rw [← hlog]
      exact .through ⟨h, hpassed⟩
    | @stopped before j after hrow hbefore hstop =>
      rw [← hlog] at hstop ⊢
      exact .stopped (by rw [hrow, List.cons_append]) ⟨h, hbefore⟩ hstop

/-- A leaf that does not ends the walk. -/
theorem walked_cons_iff_of_ne (h : answer log i ≠ .ok go) :
    Walked call answer go log (i :: row) result ↔ (answer log i, log ++ [call i]) = result := by
  constructor
  · intro hwalked
    cases hwalked with
    | through hpassed => exact absurd hpassed.1 h
    | @stopped before j after hrow hbefore hstop =>
      cases before with
      | nil =>
        cases hrow
        rw [List.map_nil, List.append_nil]
      | cons first before =>
        cases hrow
        exact absurd hbefore.1 h
  · rintro rfl
    have hfirst : answer (log ++ ([] : List ι).map call) i ≠ .ok go := by
      rwa [List.map_nil, List.append_nil]
    have hrow : i :: row = [] ++ i :: row := rfl
    have hwalked : Walked call answer go log (i :: row) _ := .stopped hrow trivial hfirst
    rwa [List.map_nil, List.append_nil] at hwalked

theorem run_watched_bind_of_ok {β : Type} {f : α → ExceptT ε (StateM (List κ)) β} {a : α}
    (h : answer log i = .ok a) :
    (watched call answer i >>= f).run.run log = (f a).run.run (log ++ [call i]) := by
  show StateT.run (ExceptT.bindCont f (answer log i)) (log ++ [call i]) = _
  rw [h]
  rfl

theorem run_watched_bind_of_error {β : Type} {f : α → ExceptT ε (StateM (List κ)) β} {e : ε}
    (h : answer log i = .error e) :
    (watched call answer i >>= f).run.run log = (.error e, log ++ [call i]) := by
  show StateT.run (ExceptT.bindCont f (answer log i)) (log ++ [call i]) = _
  rw [h]
  rfl

theorem anyM_watched_iff {answer : List κ → ι → Except ε Bool} {result : Except ε Bool × List κ} :
    (row.anyM (watched call answer)).run.run log = result ↔
      Walked call answer false log row result := by
  induction row generalizing log with
  | nil => exact walked_nil_iff.symm
  | cons i row ih =>
    rw [List.anyM_cons]
    cases h : answer log i with
    | error e => rw [run_watched_bind_of_error h, walked_cons_iff_of_ne (by simp [h]), h]
    | ok suppressed =>
      rw [run_watched_bind_of_ok h]
      cases suppressed with
      | true =>
        rw [walked_cons_iff_of_ne (by simp [h]), h]
        rfl
      | false =>
        rw [walked_cons_iff_of_eq h]
        exact ih

theorem forM_watched_iff {answer : List κ → ι → Except ε Unit} {result : Except ε Unit × List κ} :
    (row.forM (watched call answer)).run.run log = result ↔
      Walked call answer () log row result := by
  induction row generalizing log with
  | nil => exact walked_nil_iff.symm
  | cons i row ih =>
    rw [List.forM_eq_forM, List.forM_cons]
    cases h : answer log i with
    | error e => rw [run_watched_bind_of_error h, walked_cons_iff_of_ne (by simp [h]), h]
    | ok _ =>
      rw [run_watched_bind_of_ok h, walked_cons_iff_of_eq h]
      exact ih

end Walks

/-! ## Leaves that answer as they like -/

inductive LeafCall (ι : Type) where
  | prepare (leaf : ι)
  | ask (record : Record) (leaf : ι)

/-- What the leaves answer.  They need not answer alike each time, so an answer is given with a view
to all the calls that were made before it. -/
structure Responses (ι : Type) where
  prepared : List (LeafCall ι) → ι → Except Error Unit
  filtered : Record → List (LeafCall ι) → ι → Except Error Bool

namespace Responses

variable {ι : Type}

/-- The answer of the tree, and the log of the calls after it. -/
def isFiltered (a : Responses ι) (f : FilterTree ι) (record : Record) (log : List (LeafCall ι)) :
    Except Error Bool × List (LeafCall ι) :=
  (f.isFiltered (watched (.ask record) (a.filtered record))).run.run log

def setup (a : Responses ι) (f : FilterTree ι) (log : List (LeafCall ι)) :
    Except Error Unit × List (LeafCall ι) :=
  (f.setup (watched .prepare a.prepared)).run.run log

end Responses

/-- Whatever has been called before, a tree of filters answers what comes of the row of its leaves:
the outcome of the first that does not answer `false`, or `false`.  It is prepared in the same way.
So a tree cannot be told from the one chain of its leaves, by what it answers or by the calls. -/
theorem tree_walks {ι : Type} (a : Responses ι) (f : FilterTree ι) (record : Record)
    (log : List (LeafCall ι)) :
    (∀ result, a.isFiltered f record log = result ↔
        Walked (.ask record) (a.filtered record) false log f.leaves result) ∧
      (∀ result, a.setup f log = result ↔ Walked .prepare a.prepared () log f.leaves result) ∧
      a.isFiltered f.flat record log = a.isFiltered f record log ∧
      a.setup f.flat log = a.setup f log := by
  refine ⟨fun result => ?_, fun result => ?_, ?_, ?_⟩
  · rw [Responses.isFiltered, isFiltered_eq_anyM, anyM_watched_iff]
  · rw [Responses.setup, setup_eq_forM, forM_watched_iff]
  · rw [Responses.isFiltered, Responses.isFiltered, isFiltered_eq_anyM, isFiltered_eq_anyM,
      leaves_flat]
  · rw [Responses.setup, Responses.setup, setup_eq_forM, setup_eq_forM, leaves_flat]

end AuditTrail.FilterTree
