import AuditTrail.Proofs.Store.Atomicity
import AuditTrail.Proofs.Store.Granting
import AuditTrail.Proofs.Store.Turns

/-!
# Writers one after another

However the steps of the writers and the loads come between each other, the document ends up as if
the writers had made their changes one after another, in the order in which they took the lock, and
each load returns what some of the first changes have left (`no_update_lost`).  Whoever has arrived
can be brought to return (`Coherent.completes`), so that this is said of all changes.  What changes
leave is said by what a map would hold after them (`WhitelistTable.toMap_written`).
-/

namespace AuditTrail

/-! ## What the changes come to -/

/-- The call that makes the change. -/
def StoreChange.call : StoreChange → FileStoreCall
  | grant role r ps => .common (.grant role r ps)
  | saveRole role w => .saveRole role w

namespace WhitelistMap

def change (m : WhitelistMap) (c : StoreChange) : WhitelistMap := (m.perform c.call).2

/-- The map after changes, each of which is written to a document and read back. -/
def written (m : WhitelistMap) (changes : List StoreChange) : WhitelistMap :=
  changes.foldl (fun m c role => (m.change c role).reread) m

end WhitelistMap

namespace WhitelistTable

theorem toMap_on (t : WhitelistTable) (c : StoreChange) : toMap (c.on t) = (toMap t).change c := by
  cases c with
  | grant role r ps => exact toMap_granting t role r ps
  | saveRole role w => exact toMap_saving t role w

theorem toMap_foldl_on (t : WhitelistTable) (changes : List StoreChange) :
    toMap (changes.foldl (fun t c => c.on t) t) = changes.foldl WhitelistMap.change (toMap t) := by
  induction changes generalizing t with
  | nil => rfl
  | cons c changes ih => rw [List.foldl_cons, List.foldl_cons, ih, toMap_on]

theorem toMap_written (t : WhitelistTable) (changes : List StoreChange) :
    toMap (t.written changes) = (toMap t).written changes := by
  induction changes generalizing t with
  | nil => rfl
  | cons c changes ih =>
    have hreread : toMap (c.on t).reread = fun role => ((toMap t).change c role).reread := by
      rw [← toMap_on]
      funext role
      exact getD_reread (c.on t) role
    rw [written, List.foldl_cons, ← written, ih, hreread]
    rfl

end WhitelistTable

namespace SharedStore

variable {w : SharedStore} {s : FileStore} {table : WhitelistTable} {id other : WriterId}
  {c d : StoreChange} {stage : WriterStage} {taken : List (WriterId × StoreChange)}

/-! ## Runs -/

/-- The writers in the order in which they take the lock in a run, with their changes. -/
def order (w : SharedStore) : List Action → List (WriterId × StoreChange)
  | [] => []
  | a :: actions => (w.lockTaken a).toList ++ (w.step a).order actions

theorem order_append (w : SharedStore) (actions more : List Action) :
    w.order (actions ++ more) = w.order actions ++ (w.run actions).order more := by
  induction actions generalizing w with
  | nil => rfl
  | cons a actions ih =>
    rw [List.cons_append, order, order, ih, List.append_assoc]
    rfl

theorem run_append (w : SharedStore) (actions more : List Action) :
    w.run (actions ++ more) = (w.run actions).run more := List.foldl_append

/-- What a whole run keeps.  A writer whose document has been seen is not unseen later. -/
theorem Coherent.run {actions : List Action} (h : w.Coherent s taken) (hs : s.Settled table)
    (hactions : ∀ id c, .arrive id c ∈ actions → c.All Resource.Made) :
    (w.run actions).Coherent s (taken ++ w.order actions) ∧
      (w.run actions).unseen ≤ w.unseen + (w.order actions).length := by
  induction actions generalizing w taken with
  | nil =>
    rw [order, List.append_nil]
    exact ⟨h, Nat.le_refl _⟩
  | cons a actions ih =>
    have hmoves := moves_step w a
    have hnext := h.moves hs hmoves fun id c ha =>
      hactions id c (by rw [ha]; exact List.mem_cons_self)
    obtain ⟨hafter, hunseen⟩ := ih hnext fun id c hmem =>
      hactions id c (List.mem_cons_of_mem a hmem)
    rw [order, ← List.append_assoc]
    refine ⟨hafter, Nat.le_trans hunseen ?_⟩
    have hstep := h.unseen_le_of_moves hmoves
    rw [List.length_append]
    omega

/-- How many of those that have taken the lock in a run have put their document in place. -/
def seen (w : SharedStore) (actions : List Action) : Nat :=
  (w.order actions).length - (w.run actions).unseen

theorem seen_le_append {actions more : List Action} (hs : s.Settled table)
    (hactions : ∀ id c, .arrive id c ∈ actions ++ more → c.All Resource.Made) :
    (new s).seen actions ≤ (new s).seen (actions ++ more) := by
  obtain ⟨hnow, -⟩ := (coherent_new s).run hs fun id c hmem =>
    hactions id c (List.mem_append_left more hmem)
  obtain ⟨-, hunseen⟩ := hnow.run hs fun id c hmem =>
    hactions id c (List.mem_append_right actions hmem)
  rw [seen, seen, order_append, run_append, List.length_append]
  omega

theorem seen_take_le {actions : List Action} (hs : s.Settled table)
    (hactions : ∀ id c, .arrive id c ∈ actions → c.All Resource.Made) {m n : Nat} (hmn : m ≤ n) :
    (new s).seen (actions.take m) ≤ (new s).seen (actions.take n) := by
  have hsplit : actions.take n = actions.take m ++ (actions.take n).drop m := by
    conv_lhs => rw [← List.take_append_drop m (actions.take n), List.take_take, Nat.min_eq_left hmn]
  rw [hsplit]
  refine seen_le_append hs fun id c hmem => hactions id c ?_
  rw [← hsplit] at hmem
  exact List.mem_of_mem_take hmem

/-- What is seen of the order at a moment does not change when the run goes on. -/
theorem take_seen_order (w : SharedStore) (actions : List Action) (n : Nat) :
    (w.order actions).take (w.seen (actions.take n)) =
      (w.order (actions.take n)).take (w.seen (actions.take n)) := by
  have horder : w.order actions =
      w.order (actions.take n) ++ (w.run (actions.take n)).order (actions.drop n) := by
    rw [← order_append, List.take_append_drop]
  rw [horder]
  exact List.take_append_of_le_length (Nat.sub_le _ _)

/-! ## From arriving to returning -/

theorem isSome_writer?_step (a : Action) (h : (w.writer? id).isSome ∨ ∃ c, a = .arrive id c) :
    ((w.step a).writer? id).isSome := by
  rcases h with h | ⟨c, rfl⟩
  · have hm := moves_step w a
    generalize w.step a = w', w.lockTaken a = new at hm
    cases hm with
    | arrives | locks | works | returns =>
      rw [writer?_setWriter]
      split
      · rfl
      · exact h
    | stays => exact h
  · rw [step]
    split
    · rename_i hthere
      rwa [Std.ExtTreeMap.contains_eq_isSome_getElem?] at hthere
    · rw [writer?_setWriter, if_pos rfl]
      rfl

theorem isSome_writer?_run {actions : List Action}
    (h : (w.writer? id).isSome ∨ ∃ c, .arrive id c ∈ actions) :
    ((w.run actions).writer? id).isSome := by
  induction actions generalizing w with
  | nil => exact h.resolve_right fun ⟨c, hc⟩ => List.not_mem_nil hc
  | cons a actions ih =>
    refine ih (w := w.step a) ?_
    rcases h with h | ⟨c, hc⟩
    · exact Or.inl (isSome_writer?_step a (Or.inl h))
    · rcases List.mem_cons.1 hc with rfl | hc
      · exact Or.inl (isSome_writer?_step _ (Or.inr ⟨c, rfl⟩))
      · exact Or.inr ⟨c, hc⟩

theorem exists_writer?_of_step (a : Action) (h : (w.step a).writer? id = some ⟨c, stage⟩) :
    a = .arrive id c ∨ ∃ before, w.writer? id = some ⟨c, before⟩ := by
  have hm := moves_step w a
  generalize w.step a = w', w.lockTaken a = new at hm h
  cases hm with
  | @arrives other d hnew =>
    rw [writer?_setWriter] at h
    split at h
    · rename_i hid
      cases h
      exact Or.inl (by rw [hid])
    · exact Or.inr ⟨stage, h⟩
  | locks hid | works hid | returns hid =>
    rw [writer?_setWriter] at h
    split at h
    · rename_i heq
      cases h
      exact Or.inr ⟨_, heq ▸ hid⟩
    · exact Or.inr ⟨stage, h⟩
  | stays => exact Or.inr ⟨stage, h⟩

theorem arrive_mem_of_writer? {actions : List Action}
    (h : (w.run actions).writer? id = some ⟨c, stage⟩) :
    .arrive id c ∈ actions ∨ ∃ before, w.writer? id = some ⟨c, before⟩ := by
  induction actions generalizing w with
  | nil => exact Or.inr ⟨stage, h⟩
  | cons a actions ih =>
    rcases ih (w := w.step a) h with hmem | ⟨before, hbefore⟩
    · exact Or.inl (List.mem_cons_of_mem a hmem)
    · rcases exists_writer?_of_step a hbefore with rfl | hold
      · exact Or.inl List.mem_cons_self
      · exact Or.inr hold

/-- A writer that has its turn returns after the steps it has left. -/
theorem Coherent.returned_of_turn {n : Nat} (h : w.Coherent s taken) (hs : s.Settled table)
    (hid : w.writer? id = some ⟨c, stage⟩) (hturn : w.holder = none ∨ w.holder = some id)
    (hn : stage.left = n) :
    ∃ later, (w.run (List.replicate n (.advance id))).Coherent s later ∧
      (w.run (List.replicate n (.advance id))).holder = none ∧
      (w.run (List.replicate n (.advance id))).writer? id = some ⟨c, .returned (.ok ())⟩ ∧
      ∀ other, id ≠ other →
        (w.run (List.replicate n (.advance id))).writer? other = w.writer? other := by
  induction n generalizing w stage taken with
  | zero =>
    cases stage with
    | returned answer =>
      have hfree : w.holder = none := hturn.resolve_right fun hholder => by
        obtain ⟨before, -, hprogress⟩ := h.progress_of_holder hholder hid
        cases hprogress
      obtain rfl := h.answer_eq_ok hid
      exact ⟨taken, h, hfree, hid, fun _ _ => rfl⟩
    | _ => cases hn
  | succ n ih =>
    obtain ⟨stage', hid', hone, hturn', hrest⟩ := h.advance hs hid hturn (by omega)
    have hnext := h.moves hs (moves_step w (.advance id)) nofun
    obtain ⟨later, hlater, hfree, hreturned, hothers⟩ := ih hnext hid' hturn' (by omega)
    exact ⟨later, hlater, hfree, hreturned, fun other hne =>
      (hothers other hne).trans (hrest other hne)⟩

/-- Only a writer that takes a step takes the lock. -/
theorem advance_mem_of_order {actions : List Action} (h : (id, c) ∈ w.order actions) :
    .advance id ∈ actions := by
  induction actions generalizing w with
  | nil => cases h
  | cons a actions ih =>
    rw [order, List.mem_append, Option.mem_toList] at h
    rcases h with htaken | hlater
    · have hm := moves_step w a
      generalize w.step a = w' at hm
      rw [htaken] at hm
      cases hm with
      | locks => exact List.mem_cons_self
    · exact List.mem_cons_of_mem a (ih hlater)

/-- A writer that has its turn, and finds the lock free, is the only one to take it. -/
theorem Coherent.order_of_turn (h : w.Coherent s taken) (hs : s.Settled table)
    (hid : w.writer? id = some ⟨c, .waiting⟩) (hfree : w.holder = none) (n : Nat) :
    w.order (List.replicate (n + 1) (.advance id)) = [(id, c)] := by
  have hlock : w.lockTaken (.advance id) = some (id, c) := by
    rw [lockTaken, hid, hfree]
    rfl
  have hnext := h.moves hs (moves_step w (.advance id)) fun _ _ ha => by cases ha
  have harrive (other : WriterId) (d : StoreChange)
      (hmem : .arrive other d ∈ List.replicate n (Action.advance id)) : d.All Resource.Made := by
    cases (List.mem_replicate.1 hmem).2
  obtain ⟨hafter, -⟩ := hnext.run hs harrive
  rw [hlock] at hafter
  rw [List.replicate_succ, order, hlock]
  refine congrArg (List.cons _) (List.eq_nil_iff_forall_not_mem.2 fun p hp => ?_)
  have hadvance := advance_mem_of_order hp
  obtain rfl : p.1 = id := Action.advance.inj (List.mem_replicate.1 hadvance).2
  -- nobody takes the lock twice
  have honce := hafter.once
  rw [List.map_append, List.nodup_append] at honce
  exact honce.2.2 p.1 (by simp) p.1 (List.mem_map_of_mem hp) rfl

/-- The writers of a list return one after another, beginning with the one that has the lock. -/
theorem Coherent.exists_returned (ids : List WriterId) (h : w.Coherent s taken)
    (hs : s.Settled table) (hhead : ∀ id, w.holder = some id → ids.head? = some id) :
    ∃ more, (∀ a ∈ more, ∃ id, a = .advance id) ∧
      ∀ id c stage, (w.run more).writer? id = some ⟨c, stage⟩ →
        stage = .returned (.ok ()) ∨ id ∉ ids ∧ w.writer? id = some ⟨c, stage⟩ := by
  induction ids generalizing w taken with
  | nil => exact ⟨[], nofun, fun id c stage hid => Or.inr ⟨List.not_mem_nil, hid⟩⟩
  | cons first ids ih =>
    have hturn : w.holder = none ∨ w.holder = some first := by
      cases hholder : w.holder with
      | none => exact Or.inl rfl
      | some id => exact Or.inr (hhead id hholder).symm
    cases hfirst : w.writer? first with
    | none =>
      have hfree : w.holder = none := hturn.resolve_right fun hholder => by
        obtain ⟨before, c, stage, hid, -⟩ := h.holding hholder
        rw [hfirst] at hid
        cases hid
      obtain ⟨more, hmore, hreturned⟩ := ih h fun id hholder => by
        rw [hfree] at hholder
        cases hholder
      refine ⟨more, hmore, fun id c stage hid => (hreturned id c stage hid).imp_right ?_⟩
      rintro ⟨hnot, hbefore⟩
      refine ⟨fun hmem => ?_, hbefore⟩
      rcases List.mem_cons.1 hmem with rfl | hmem
      · rw [hfirst] at hbefore
        cases hbefore
      · exact hnot hmem
    | some writer =>
      obtain ⟨d, stage⟩ := writer
      obtain ⟨later, hlater, hfree, hdone, hothers⟩ := h.returned_of_turn hs hfirst hturn rfl
      obtain ⟨more, hmore, hreturned⟩ := ih hlater fun id hholder => by
        rw [hfree] at hholder
        cases hholder
      refine ⟨List.replicate stage.left (.advance first) ++ more, fun a ha => ?_,
        fun id c stage hid => ?_⟩
      · rcases List.mem_append.1 ha with ha | ha
        · exact ⟨first, (List.mem_replicate.1 ha).2⟩
        · exact hmore a ha
      · rw [run_append] at hid
        rcases hreturned id c stage hid with hend | ⟨hnot, hbefore⟩
        · exact Or.inl hend
        · by_cases heq : first = id
          · subst heq
            rw [hdone] at hbefore
            cases hbefore
            exact Or.inl rfl
          · rw [hothers id heq] at hbefore
            refine Or.inr ⟨fun hmem => ?_, hbefore⟩
            exact (List.mem_cons.1 hmem).elim (fun h => heq h.symm) hnot

theorem Coherent.completes (h : w.Coherent s taken) (hs : s.Settled table) :
    ∃ more, (∀ a ∈ more, ∃ id, a = .advance id) ∧
      ∀ id c stage, (w.run more).writer? id = some ⟨c, stage⟩ → stage = .returned (.ok ()) := by
  obtain ⟨more, hmore, hreturned⟩ :=
    Coherent.exists_returned (w.holder.toList ++ w.writers.keys) h hs fun id hholder => by
      rw [hholder]
      rfl
  refine ⟨more, hmore, fun id c stage hid => ?_⟩
  rcases hreturned id c stage hid with hdone | ⟨hnot, hbefore⟩
  · exact hdone
  · refine absurd (List.mem_append_right _ ?_) hnot
    rw [Std.ExtTreeMap.mem_keys, Std.ExtTreeMap.mem_iff_isSome_getElem?]
    exact Option.isSome_of_eq_some hbefore

/-! ## One after another -/

/-- Nobody is between taking the lock and returning. -/
def IsQuiet (w : SharedStore) : Prop :=
  ∀ id c stage, w.writer? id = some ⟨c, stage⟩ →
    stage = .waiting ∨ ∃ answer, stage = .returned answer

theorem Coherent.store_of_isQuiet (h : w.Coherent s taken) (hquiet : w.IsQuiet) :
    w.store = s.changeAll (taken.map Prod.snd) := by
  cases h.lock with
  | free _ hstore => exact hstore
  | @held before id c stage hholder hid hprogress =>
    obtain rfl | ⟨answer, rfl⟩ := hquiet id c stage hid <;> cases hprogress

/-- A run amounts to the changes of its writers one after another, in the order in which they have
taken the lock. -/
structure Serialised (s : FileStore) (table : WhitelistTable) (actions : List Action) : Prop where
  /-- Nobody takes the lock twice. -/
  once : (((new s).order actions).map Prod.fst).Nodup
  entered : ∀ id c, (id, c) ∈ (new s).order actions ↔ ((new s).run actions).Entered id c
  arrived : ∀ id c, .arrive id c ∈ actions →
    ∃ d stage, .arrive id d ∈ actions ∧ ((new s).run actions).writer? id = some ⟨d, stage⟩
  answered : ∀ id c answer, ((new s).run actions).writer? id = some ⟨c, .returned answer⟩ →
    answer = .ok ()
  document : ((new s).run actions).IsQuiet →
    ((new s).run actions).store = s.changeAll (((new s).order actions).map Prod.snd) ∧
      ((new s).run actions).store.readAll =
        .ok (table.written (((new s).order actions).map Prod.snd))
  /-- At each moment, a load sees so many of the changes: those of all writers that have returned,
  and none of a writer that has not taken the lock. -/
  loads : ∃ seen : Nat → Nat, (∀ m n, m ≤ n → seen m ≤ seen n) ∧ ∀ n,
    seen n ≤ ((new s).order (actions.take n)).length ∧
      (∀ id c answer, ((new s).run (actions.take n)).writer? id = some ⟨c, .returned answer⟩ →
        (id, c) ∈ ((new s).order actions).take (seen n)) ∧
      ∀ role, ((new s).run (actions.take n)).load role =
        .ok ((table.written ((((new s).order actions).take (seen n)).map Prod.snd)).getD role ∅)
  /-- All that have arrived can be brought to return. -/
  completes : ∃ more, (∀ a ∈ more, ∃ id, a = .advance id) ∧
    ∀ id c stage, ((new s).run (actions ++ more)).writer? id = some ⟨c, stage⟩ →
      stage = .returned (.ok ())
  /-- After any number of the changes, each role holds what it would hold in a map. -/
  holds : ∀ n,
    WhitelistTable.toMap (table.written ((((new s).order actions).take n).map Prod.snd)) =
      (WhitelistTable.toMap table).written ((((new s).order actions).take n).map Prod.snd)
  /-- Where all resources are normal, what is written is the table with the changes made to it, and
  nothing in the map is changed by reading it back. -/
  plain : (∀ p ∈ (new s).order actions, p.2.All Resource.IsNormal) → ∀ n,
    table.written ((((new s).order actions).take n).map Prod.snd) =
        (((new s).order actions).take n).foldl (fun t p => p.2.on t) table ∧
      WhitelistTable.toMap (table.written ((((new s).order actions).take n).map Prod.snd)) =
        (((new s).order actions).take n).foldl (fun m p => m.change p.2)
          (WhitelistTable.toMap table)

/-- However writers and loads come between each other on a store that begins settled, no change is
lost or made twice, and every load returns what some of the first changes have left. -/
theorem no_update_lost {actions : List Action} (hs : s.Settled table)
    (hactions : ∀ id c, .arrive id c ∈ actions → c.All Resource.Made) :
    Serialised s table actions := by
  have hmoment (n : Nat) : Coherent s ((new s).run (actions.take n))
      ((new s).order (actions.take n)) := by
    refine ((coherent_new s).run hs fun id c hmem => ?_).1
    exact hactions id c (List.mem_of_mem_take hmem)
  have hend : Coherent s ((new s).run actions) ((new s).order actions) :=
    ((coherent_new s).run hs hactions).1
  refine
    { once := hend.once
      entered := hend.mem_iff
      arrived := fun id c hmem => ?_
      answered := fun id c answer hid => hend.answer_eq_ok hid
      document := fun hquiet => ?_
      loads := ⟨fun n => (new s).seen (actions.take n), fun m n => seen_take_le hs hactions,
        fun n => ⟨Nat.sub_le _ _, fun id c answer hid => ?_, fun role => ?_⟩⟩
      completes := ?_
      holds := fun n => WhitelistTable.toMap_written table _
      plain := fun hplain n => ?_ }
  · obtain ⟨⟨d, stage⟩, hid⟩ := Option.isSome_iff_exists.1
      (isSome_writer?_run (w := new s) (Or.inr ⟨c, hmem⟩))
    rcases arrive_mem_of_writer? hid with harrive | ⟨before, hbefore⟩
    · exact ⟨d, stage, harrive, hid⟩
    · simp [new, writer?] at hbefore
  · have hstore := hend.store_of_isQuiet hquiet
    rw [hstore]
    exact ⟨rfl, (hs.changeAll hend.made_of_mem).reads⟩
  · rw [take_seen_order]
    exact (hmoment n).mem_seen hid
  · rw [take_seen_order]
    exact FileStore.load_of_readAll ((hmoment n).readAll hs) role
  · obtain ⟨more, hmore, hreturned⟩ := hend.completes hs
    exact ⟨more, hmore, by rwa [run_append]⟩
  · have hnormal : ∀ c ∈ (((new s).order actions).take n).map Prod.snd,
        c.All Resource.IsNormal := by
      intro c hc
      obtain ⟨p, hp, rfl⟩ := List.mem_map.1 hc
      exact hplain p (List.mem_of_mem_take hp)
    rw [WhitelistTable.written_of_isNormal hs.isNormal hnormal, WhitelistTable.toMap_foldl_on,
      List.foldl_map, List.foldl_map]
    exact ⟨rfl, rfl⟩

namespace Turns

open SampleRole (auditor)
open Granted (ledger)

def exempting : StoreChange := .grant auditor ledger [.select]

def creation : Whitelist := Whitelist.empty.grant .roles [.create]

def replacing : StoreChange := .saveRole auditor creation

/-- The writer that comes second takes the lock first, and the other one finds it taken. -/
def firstTurn : List Action :=
  .arrive 0 exempting :: .arrive 1 replacing :: .advance 1 :: .advance 0 ::
    List.replicate 5 (.advance 1)

def actions : List Action := firstTurn ++ List.replicate 6 (.advance 0)

theorem settled_store : Fresh.store.Settled ∅ :=
  (FileStore.settled_iff (Or.inr ⟨FileTree.isSound_empty, by decide⟩)).2
    ⟨by cbv, Fresh.isWritable_store, by decide⟩

theorem made_of_arrive (id : WriterId) (c : StoreChange) (h : .arrive id c ∈ actions) :
    c.All Resource.Made := by
  simp only [actions, firstTurn, List.mem_append, List.mem_cons, List.mem_replicate, Action.arrive.injEq,
    or_false, reduceCtorEq, and_false] at h
  rcases h with ⟨-, rfl⟩ | ⟨-, rfl⟩
  · exact Granted.made_ledger
  · exact Whitelist.all_empty.grant .roles [.create]

theorem order_firstTurn : (new Fresh.store).order firstTurn = [(1, replacing)] := by
  cbv

theorem returned_replacing : ((new Fresh.store).run firstTurn).writer? 1 =
    some ⟨replacing, .returned (.ok ())⟩ := by
  cbv

theorem waiting_exempting : ((new Fresh.store).run firstTurn).writer? 0 =
    some ⟨exempting, .waiting⟩ := by
  cbv

theorem free_firstTurn : ((new Fresh.store).run firstTurn).holder = none := by
  cbv

theorem coherent_firstTurn :
    ((new Fresh.store).run firstTurn).Coherent Fresh.store [(1, replacing)] := by
  have hmade (id : WriterId) (c : StoreChange) (hmem : .arrive id c ∈ firstTurn) :
      c.All Resource.Made :=
    made_of_arrive id c (List.mem_append_left _ hmem)
  obtain ⟨h, -⟩ := (coherent_new Fresh.store).run settled_store hmade
  rw [order_firstTurn] at h
  exact h

-- the second turn is not evaluated, since the document that it reads would have to be parsed
theorem order_actions : (new Fresh.store).order actions = [(1, replacing), (0, exempting)] := by
  rw [actions, order_append, order_firstTurn,
    coherent_firstTurn.order_of_turn settled_store waiting_exempting free_firstTurn]
  rfl

theorem returned_exempting : ((new Fresh.store).run actions).writer? 0 =
    some ⟨exempting, .returned (.ok ())⟩ := by
  obtain ⟨-, -, -, hreturned, -⟩ := coherent_firstTurn.returned_of_turn settled_store
    waiting_exempting (Or.inl free_firstTurn) rfl
  rw [actions, run_append]
  exact hreturned

theorem isNormal_of_order : ∀ p ∈ (new Fresh.store).order actions, p.2.All Resource.IsNormal := by
  have hroles : Resource.roles.IsNormal := ⟨"roles", by decide +kernel⟩
  have hledger : ledger.IsNormal := ⟨"data/books/ledger", by decide +kernel⟩
  rw [order_actions]
  simp only [List.forall_mem_cons]
  exact ⟨Whitelist.all_empty.grant hroles [.create], hledger, by simp⟩

end Turns

open Turns SampleRole in
theorem no_update_lost_in_turns :
    Serialised Fresh.store ∅ actions ∧
      ((new Fresh.store).order actions).map Prod.fst = [1, 0] ∧
      ((new Fresh.store).run firstTurn).load auditor = .ok creation ∧
      ((new Fresh.store).run actions).load auditor =
        .ok (creation.grant Granted.ledger [.select]) := by
  have hserial := no_update_lost settled_store made_of_arrive
  obtain ⟨seen, -, hseen⟩ := hserial.loads
  refine ⟨hserial, by rw [order_actions]; rfl, ?_, ?_⟩
  · obtain ⟨hle, hreturned, hload⟩ := hseen firstTurn.length
    rw [actions, List.take_left] at hle hreturned hload
    rw [order_firstTurn, List.length_singleton] at hle
    rw [← actions, order_actions] at hreturned hload
    have hmem := hreturned 1 _ _ returned_replacing
    obtain hn | hn : seen firstTurn.length = 0 ∨ seen firstTurn.length = 1 := by omega
    · rw [hn] at hmem
      cases hmem
    · rw [hload, hn]
      decide +kernel
  · obtain ⟨-, hreturned, hload⟩ := hseen actions.length
    rw [List.take_length, order_actions] at hreturned hload
    have hmem := hreturned 0 _ _ returned_exempting
    have htwo : 2 ≤ seen actions.length := by
      refine Nat.le_of_not_lt fun hlt => ?_
      obtain hn | hn : seen actions.length = 0 ∨ seen actions.length = 1 := by omega
      · rw [hn] at hmem
        cases hmem
      · rw [hn] at hmem
        simp at hmem
    have hheld := congrFun (hserial.plain isNormal_of_order 2).2 auditor
    rw [order_actions] at hheld
    rw [hload, List.take_of_length_le htwo]
    refine congrArg Except.ok (hheld.trans ?_)
    rfl

end SharedStore
end AuditTrail
