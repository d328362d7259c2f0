import AuditTrail.Proofs.Store.Settled

/-!
# Writers that take turns

All writers but the one that holds the lock wait or are done, and the store is what the others have
left, on its way to what the holder will leave (`Coherent`).  A step keeps this
(`Coherent.moves`), and what a load reads is therefore what the first of the writers have left that
took the lock (`Coherent.readAll`).
-/

namespace AuditTrail.SharedStore

variable {w : SharedStore} {s : FileStore} {table : WhitelistTable} {id other : WriterId}
  {c d : StoreChange} {stage : WriterStage} {taken : List (WriterId × StoreChange)}

/-! ## One step -/

@[simp] theorem writer?_setWriter (w : SharedStore) (id other : WriterId) (writer : Writer) :
    (w.setWriter id writer).writer? other =
      if id = other then some writer else w.writer? other := by
  simp only [setWriter, writer?, Std.ExtTreeMap.getElem?_insert, Std.compare_eq_iff_eq]

/-- The writer that takes the lock in the step, and its change. -/
def lockTaken (w : SharedStore) : Action → Option (WriterId × StoreChange)
  | .arrive _ _ => none
  | .advance id =>
    match w.writer? id with
    | some ⟨c, .waiting⟩ => if w.holder.isNone then some (id, c) else none
    | _ => none

/-- What a step does, and who takes the lock in it. -/
inductive Moves (w : SharedStore) :
    Action → Option (WriterId × StoreChange) → SharedStore → Prop
  | arrives {id : WriterId} {c : StoreChange} (hnew : w.writer? id = none) :
      Moves w (.arrive id c) none (w.setWriter id ⟨c, .waiting⟩)
  | locks {id : WriterId} {c : StoreChange} (hid : w.writer? id = some ⟨c, .waiting⟩)
      (hfree : w.holder = none) :
      Moves w (.advance id) (some (id, c))
        ({ w with holder := some id }.setWriter id ⟨c, .locked⟩)
  | works {id : WriterId} {c : StoreChange} {stage : WriterStage}
      (hid : w.writer? id = some ⟨c, stage⟩) (hworks : stage.Works) :
      Moves w (.advance id) none
        ({ w with store := (stage.work c w.store).2 }.setWriter id
          ⟨c, (stage.work c w.store).1⟩)
  | returns {id : WriterId} {c : StoreChange} {answer : Except Error Unit}
      (hid : w.writer? id = some ⟨c, .ended answer⟩) :
      Moves w (.advance id) none ({ w with holder := none }.setWriter id ⟨c, .returned answer⟩)
  | stays {a : Action} : Moves w a none w

theorem moves_step (w : SharedStore) (a : Action) : w.Moves a (w.lockTaken a) (w.step a) := by
  cases a with
  | arrive id c =>
    rw [step, Std.ExtTreeMap.contains_eq_isSome_getElem?]
    cases hid : w.writers[id]? with
    | none => exact .arrives hid
    | some writer => exact .stays
  | advance id =>
    rw [step, advance, lockTaken]
    cases hid : w.writer? id with
    | none => exact .stays
    | some writer =>
      obtain ⟨c, stage⟩ := writer
      cases stage with
      | waiting =>
        cases hfree : w.holder with
        | none => exact .locks hid hfree
        | some holder => exact .stays
      | locked | changed _ | housed _ | drafted => exact .works hid trivial
      | ended answer => exact .returns hid
      | returned _ => exact .stays

/-! ## Who has had the lock -/

/-- The writer has taken the lock, to make this change. -/
def Entered (w : SharedStore) (id : WriterId) (c : StoreChange) : Prop :=
  ∃ stage, w.writer? id = some ⟨c, stage⟩ ∧ stage ≠ .waiting

theorem entered_setWriter_self : (w.setWriter id ⟨c, stage⟩).Entered id d ↔
    c = d ∧ stage ≠ .waiting := by
  simp only [Entered, writer?_setWriter, if_true, Option.some.injEq, Writer.mk.injEq]
  constructor
  · rintro ⟨_, ⟨hc, rfl⟩, hstage⟩
    exact ⟨hc, hstage⟩
  · rintro ⟨hc, hstage⟩
    exact ⟨stage, ⟨hc, rfl⟩, hstage⟩

theorem entered_setWriter_of_ne (h : id ≠ other) :
    (w.setWriter id ⟨c, stage⟩).Entered other d ↔ w.Entered other d := by
  simp only [Entered, writer?_setWriter, if_neg h]

/-- The store is what the writers have left that have had the lock, but for what the one that holds
it has done since. -/
inductive Lock (s : FileStore) (w : SharedStore) : List (WriterId × StoreChange) → Prop
  | free {taken : List (WriterId × StoreChange)} (hholder : w.holder = none)
      (hstore : w.store = s.changeAll (taken.map Prod.snd)) : Lock s w taken
  | held {before : List (WriterId × StoreChange)} {id : WriterId} {c : StoreChange}
      {stage : WriterStage} (hholder : w.holder = some id)
      (hid : w.writer? id = some ⟨c, stage⟩)
      (hprogress : (s.changeAll (before.map Prod.snd)).Progress c stage w.store) :
      Lock s w (before ++ [(id, c)])

/-- The writers have taken the lock in the order of the list, and all but the one that holds it wait
or are done. -/
structure Coherent (s : FileStore) (w : SharedStore) (taken : List (WriterId × StoreChange)) :
    Prop where
  once : (taken.map Prod.fst).Nodup
  mem_iff : ∀ id c, (id, c) ∈ taken ↔ w.Entered id c
  others : ∀ id c stage, w.writer? id = some ⟨c, stage⟩ → w.holder ≠ some id →
    stage = .waiting ∨ stage = .returned (.ok ())
  made : ∀ id c stage, w.writer? id = some ⟨c, stage⟩ → c.All Resource.Made
  lock : w.Lock s taken

theorem coherent_new (s : FileStore) : Coherent s (new s) [] where
  once := List.nodup_nil
  mem_iff id c := by simp [Entered, new, writer?]
  others id c stage h := by simp [new, writer?] at h
  made id c stage h := by simp [new, writer?] at h
  lock := .free rfl rfl

/-! ## What a step keeps -/

theorem Coherent.made_of_mem (h : w.Coherent s taken) :
    ∀ d ∈ taken.map Prod.snd, d.All Resource.Made := by
  intro d hd
  obtain ⟨⟨id, c⟩, hmem, rfl⟩ := List.mem_map.1 hd
  obtain ⟨stage, hid, -⟩ := (h.mem_iff id c).1 hmem
  exact h.made id c stage hid

/-- What the holder of the lock has found when it took it. -/
theorem Coherent.settled_before {before : List (WriterId × StoreChange)}
    {last : WriterId × StoreChange} (h : w.Coherent s (before ++ [last])) (hs : s.Settled table) :
    (s.changeAll (before.map Prod.snd)).Settled (table.written (before.map Prod.snd)) := by
  refine hs.changeAll fun d hd => h.made_of_mem d ?_
  rw [List.map_append]
  exact List.mem_append_left _ hd

/-- The writer that has the lock has been the last to take it. -/
theorem Coherent.holding (h : w.Coherent s taken) (hholder : w.holder = some id) :
    ∃ before c stage, w.writer? id = some ⟨c, stage⟩ ∧ taken = before ++ [(id, c)] ∧
      (s.changeAll (before.map Prod.snd)).Progress c stage w.store := by
  cases h.lock with
  | free hfree => exact absurd (hholder.symm.trans hfree) (Option.some_ne_none id)
  | held hholder' hid hprogress =>
    obtain rfl := Option.some.inj (hholder'.symm.trans hholder)
    exact ⟨_, _, _, hid, rfl, hprogress⟩

theorem Coherent.progress_of_holder (h : w.Coherent s taken) (hholder : w.holder = some id)
    (hid : w.writer? id = some ⟨c, stage⟩) :
    ∃ before, taken = before ++ [(id, c)] ∧
      (s.changeAll (before.map Prod.snd)).Progress c stage w.store := by
  obtain ⟨before, d, stage', hid', htaken, hprogress⟩ := h.holding hholder
  obtain ⟨rfl, rfl⟩ := Writer.mk.inj (Option.some.inj (hid'.symm.trans hid))
  exact ⟨before, htaken, hprogress⟩

/-- A writer that neither waits nor is done has the lock. -/
theorem Coherent.held (h : w.Coherent s taken) (hid : w.writer? id = some ⟨c, stage⟩)
    (hstage : ¬ (stage = .waiting ∨ stage = .returned (.ok ()))) :
    w.holder = some id ∧ ∃ before, taken = before ++ [(id, c)] ∧
      (s.changeAll (before.map Prod.snd)).Progress c stage w.store := by
  have hholder : w.holder = some id :=
    Classical.byContradiction fun hne => hstage (h.others id c stage hid hne)
  exact ⟨hholder, h.progress_of_holder hholder hid⟩

theorem ne_of_writer? {writer : Writer} (hnew : w.writer? id = none)
    (hother : w.writer? other = some writer) : id ≠ other := by
  rintro rfl
  rw [hnew] at hother
  cases hother

theorem Coherent.not_mem (h : w.Coherent s taken)
    (hid : ∀ d stage, w.writer? id = some ⟨d, stage⟩ → stage = .waiting) :
    id ∉ taken.map Prod.fst := by
  intro hmem
  obtain ⟨⟨id, d⟩, hpair, rfl⟩ := List.mem_map.1 hmem
  obtain ⟨stage, hstage, hne⟩ := (h.mem_iff id d).1 hpair
  exact hne (hid d stage hstage)

theorem Coherent.mem_self_iff (h : w.Coherent s taken) (hid : w.writer? id = some ⟨c, stage⟩)
    (hne : stage ≠ .waiting) : (id, d) ∈ taken ↔ c = d := by
  rw [h.mem_iff, Entered, hid]
  constructor
  · rintro ⟨_, heq, -⟩
    exact (Writer.mk.inj (Option.some.inj heq)).1
  · rintro rfl
    exact ⟨stage, rfl, hne⟩

/-- How a change of one writer shows in the conditions on all. -/
theorem Coherent.setWriter {w' : SharedStore} {taken' : List (WriterId × StoreChange)}
    (h : w.Coherent s taken) (hwriters : w'.writers = w.writers)
    (honce : (taken'.map Prod.fst).Nodup)
    (hself : ∀ d, (id, d) ∈ taken' ↔ c = d ∧ stage ≠ .waiting)
    (hrest : ∀ other d, id ≠ other → ((other, d) ∈ taken' ↔ (other, d) ∈ taken))
    (hstage : w'.holder ≠ some id → stage = .waiting ∨ stage = .returned (.ok ()))
    (hholder : ∀ other, id ≠ other → w'.holder ≠ some other → w.holder ≠ some other)
    (hmade : c.All Resource.Made) (hlock : (w'.setWriter id ⟨c, stage⟩).Lock s taken') :
    (w'.setWriter id ⟨c, stage⟩).Coherent s taken' := by
  have hwriter : ∀ other, w'.writer? other = w.writer? other := by
    intro other
    rw [writer?, writer?, hwriters]
  refine ⟨honce, fun other d => ?_, fun other d stage' hother hne => ?_,
    fun other d stage' hother => ?_, hlock⟩
  · by_cases hid : id = other
    · subst hid
      rw [hself d, entered_setWriter_self]
    · rw [hrest other d hid, h.mem_iff, entered_setWriter_of_ne hid, Entered, Entered, hwriter]
  · rw [writer?_setWriter] at hother
    split at hother
    · rename_i hid
      subst hid
      cases hother
      exact hstage hne
    · rename_i hid
      rw [hwriter] at hother
      exact h.others other d stage' hother (hholder other hid hne)
  · rw [writer?_setWriter] at hother
    split at hother
    · cases hother
      exact hmade
    · rw [hwriter] at hother
      exact h.made other d stage' hother

theorem Coherent.arrives (h : w.Coherent s taken) (hnew : w.writer? id = none)
    (hc : c.All Resource.Made) : (w.setWriter id ⟨c, .waiting⟩).Coherent s taken := by
  have hnot : id ∉ taken.map Prod.fst := h.not_mem fun d stage hid => by
    rw [hnew] at hid
    cases hid
  refine h.setWriter rfl h.once (fun d => ?_) (fun _ _ _ => Iff.rfl) (fun _ => Or.inl rfl)
    (fun _ _ hne => hne) hc ?_
  · exact ⟨fun hmem => absurd (List.mem_map_of_mem hmem) hnot, fun hd => absurd rfl hd.2⟩
  · cases h.lock with
    | free hholder hstore => exact .free hholder hstore
    | @held before other d stage hholder hother hprogress =>
      have hne : id ≠ other := ne_of_writer? hnew hother
      exact .held hholder (by rw [writer?_setWriter, if_neg hne, hother]) hprogress

theorem Coherent.locks (h : w.Coherent s taken) (hid : w.writer? id = some ⟨c, .waiting⟩)
    (hfree : w.holder = none) :
    ({ w with holder := some id }.setWriter id ⟨c, .locked⟩).Coherent s (taken ++ [(id, c)]) := by
  have hnot : id ∉ taken.map Prod.fst := h.not_mem fun d stage hd => by
    rw [hid] at hd
    cases hd
    rfl
  have hstore : w.store = s.changeAll (taken.map Prod.snd) := by
    cases h.lock with
    | free _ hstore => exact hstore
    | held hholder => exact absurd (hfree.symm.trans hholder) (Option.some_ne_none _).symm
  refine h.setWriter rfl ?_ (fun d => ?_) (fun other d hne => ?_) (fun hne => absurd rfl hne)
    (fun _ _ _ => by rw [hfree]; exact (Option.some_ne_none _).symm) (h.made id c _ hid) ?_
  · rw [List.map_append, List.nodup_append]
    refine ⟨h.once, List.nodup_cons.2 ⟨List.not_mem_nil, List.nodup_nil⟩, ?_⟩
    rintro other hother _ hid rfl
    rw [List.map_singleton, List.mem_singleton] at hid
    subst hid
    exact hnot hother
  · rw [List.mem_append, List.mem_singleton, Prod.mk.injEq]
    constructor
    · rintro (hmem | ⟨-, rfl⟩)
      · exact absurd (List.mem_map_of_mem hmem) hnot
      · exact ⟨rfl, nofun⟩
    · rintro ⟨rfl, -⟩
      exact Or.inr ⟨rfl, rfl⟩
  · rw [List.mem_append, List.mem_singleton, Prod.mk.injEq]
    exact or_iff_left fun heq => hne heq.1.symm
  · refine .held rfl (by rw [writer?_setWriter, if_pos rfl]) ?_
    rw [← hstore]
    exact .locked

theorem Coherent.works (h : w.Coherent s taken) (hs : s.Settled table)
    (hid : w.writer? id = some ⟨c, stage⟩) (hworks : stage.Works) :
    ({ w with store := (stage.work c w.store).2 }.setWriter id
      ⟨c, (stage.work c w.store).1⟩).Coherent s taken := by
  obtain ⟨hholder, before, rfl, hprogress⟩ := h.held hid hworks.not_apart
  obtain ⟨hnext, -⟩ := hprogress.work (h.settled_before hs) hworks
  refine h.setWriter rfl h.once (fun d => ?_) (fun _ _ _ => Iff.rfl)
    (fun hne => absurd hholder hne) (fun _ _ hne => hne) (h.made id c _ hid) ?_
  · rw [h.mem_self_iff hid fun hwaiting => hworks.not_apart (Or.inl hwaiting)]
    exact (and_iff_left hnext.ne_waiting).symm
  · exact .held hholder (by rw [writer?_setWriter, if_pos rfl]) hnext

theorem Coherent.returns {answer : Except Error Unit} (h : w.Coherent s taken)
    (hid : w.writer? id = some ⟨c, .ended answer⟩) :
    ({ w with holder := none }.setWriter id ⟨c, .returned answer⟩).Coherent s taken := by
  obtain ⟨hholder, before, rfl, hprogress⟩ := h.held hid (by rintro (h | h) <;> cases h)
  cases hprogress with
  | ended hchange =>
    refine h.setWriter rfl h.once (fun d => ?_) (fun _ _ _ => Iff.rfl) (fun _ => Or.inr rfl)
      (fun other hne _ => ?_) (h.made id c _ hid) ?_
    · rw [h.mem_self_iff hid nofun]
      exact (and_iff_left nofun).symm
    · rw [hholder]
      exact fun heq => hne (Option.some.inj heq)
    · refine .free rfl ?_
      rw [List.map_append, FileStore.changeAll_append, List.map_singleton]
      exact (congrArg Prod.snd hchange).symm

theorem Coherent.moves {a : Action} {new : Option (WriterId × StoreChange)} {w' : SharedStore}
    (h : w.Coherent s taken) (hs : s.Settled table) (hm : w.Moves a new w')
    (ha : ∀ id c, a = .arrive id c → c.All Resource.Made) :
    w'.Coherent s (taken ++ new.toList) := by
  cases hm with
  | arrives hnew => simpa using h.arrives hnew (ha _ _ rfl)
  | locks hid hfree => exact h.locks hid hfree
  | works hid hworks => simpa using h.works hs hid hworks
  | returns hid => simpa using h.returns hid
  | stays => simpa using h

theorem Coherent.answer_eq_ok {answer : Except Error Unit} (h : w.Coherent s taken)
    (hid : w.writer? id = some ⟨c, .returned answer⟩) : answer = .ok () := by
  refine Classical.byContradiction fun hne => ?_
  obtain ⟨-, before, -, hprogress⟩ := h.held hid <| by
    rintro (heq | heq)
    · cases heq
    · cases heq
      exact hne rfl
  cases hprogress

theorem advance_of_works (hid : w.writer? id = some ⟨c, stage⟩) (hworks : stage.Works) :
    w.advance id = { w with store := (stage.work c w.store).2 }.setWriter id
      ⟨c, (stage.work c w.store).1⟩ := by
  rw [SharedStore.advance, hid]
  cases stage with
  | locked | changed _ | housed _ | drafted => rfl
  | waiting | ended _ | returned _ => exact hworks.elim

/-- A writer that has the lock, or finds it free, is brought on by a step of its own, which changes
no other writer. -/
theorem Coherent.advance (h : w.Coherent s taken) (hs : s.Settled table)
    (hid : w.writer? id = some ⟨c, stage⟩) (hturn : w.holder = none ∨ w.holder = some id)
    (hleft : stage.left ≠ 0) :
    ∃ stage', (w.advance id).writer? id = some ⟨c, stage'⟩ ∧ stage'.left + 1 = stage.left ∧
      ((w.advance id).holder = none ∨ (w.advance id).holder = some id) ∧
      ∀ other, id ≠ other → (w.advance id).writer? other = w.writer? other := by
  have hrest (w' : SharedStore) (writer : Writer) (other : WriterId) (hne : id ≠ other) :
      (w'.setWriter id writer).writer? other = w'.writer? other := by
    rw [writer?_setWriter, if_neg hne]
  by_cases hworks : stage.Works
  · obtain ⟨hholder, before, rfl, hprogress⟩ := h.held hid hworks.not_apart
    obtain ⟨-, hone⟩ := hprogress.work (h.settled_before hs) hworks
    rw [advance_of_works hid hworks]
    exact ⟨_, by rw [writer?_setWriter, if_pos rfl], hone, Or.inr hholder, hrest _ _⟩
  · cases stage with
    | locked | changed _ | housed _ | drafted => exact absurd trivial hworks
    | waiting =>
      have hfree : w.holder = none := hturn.resolve_right fun hholder => by
        obtain ⟨before, -, hprogress⟩ := h.progress_of_holder hholder hid
        cases hprogress
      have hnext : w.advance id = { w with holder := some id }.setWriter id ⟨c, .locked⟩ := by
        rw [SharedStore.advance, hid, hfree]
        rfl
      rw [hnext]
      exact ⟨.locked, by rw [writer?_setWriter, if_pos rfl], rfl, Or.inr rfl, hrest _ _⟩
    | ended answer =>
      have hnext : w.advance id = { w with holder := none }.setWriter id ⟨c, .returned answer⟩ := by
        rw [SharedStore.advance, hid]
      rw [hnext]
      exact ⟨.returned answer, by rw [writer?_setWriter, if_pos rfl], rfl, Or.inl rfl, hrest _ _⟩
    | returned answer => exact absurd rfl hleft

/-! ## What is seen -/

/-- How many of those that have had the lock have not put their document in place. -/
def unseen (w : SharedStore) : Nat :=
  match w.holder.bind w.writer? with
  | some writer => if writer.stage.hasPublished then 0 else 1
  | none => 0

theorem unseen_le_one (w : SharedStore) : w.unseen ≤ 1 := by
  rw [unseen]
  split
  · split <;> omega
  · omega

theorem unseen_of_free (h : w.holder = none) : w.unseen = 0 := by
  rw [unseen, h]
  rfl

theorem unseen_of_held (hholder : w.holder = some id) (hid : w.writer? id = some ⟨c, stage⟩) :
    w.unseen = if stage.hasPublished then 0 else 1 := by
  rw [unseen, hholder, Option.bind_some, hid]

/-- A load reads what the writers have left that have put their document in place. -/
theorem Coherent.readAll (h : w.Coherent s taken) (hs : s.Settled table) :
    w.store.readAll =
      .ok (table.written ((taken.take (taken.length - w.unseen)).map Prod.snd)) := by
  cases h.lock with
  | free hholder hstore =>
    rw [unseen_of_free hholder, Nat.sub_zero, List.take_length, hstore]
    exact (hs.changeAll h.made_of_mem).reads
  | @held before id c stage hholder hid hprogress =>
    rw [unseen_of_held hholder hid,
      hprogress.readAll (h.settled_before hs) (h.made id c stage hid)]
    cases stage.hasPublished with
    | true =>
      rw [if_pos rfl, if_pos rfl, Nat.sub_zero, List.take_length, List.map_append,
        WhitelistTable.written_append]
      rfl
    | false => simp

theorem Coherent.mem_seen {answer : Except Error Unit} (h : w.Coherent s taken)
    (hid : w.writer? id = some ⟨c, .returned answer⟩) :
    (id, c) ∈ taken.take (taken.length - w.unseen) := by
  have hmem : (id, c) ∈ taken := (h.mem_iff id c).2 ⟨_, hid, nofun⟩
  cases h.lock with
  | free hholder _ =>
    rw [unseen_of_free hholder, Nat.sub_zero, List.take_length]
    exact hmem
  | @held before other d stage hholder hother hprogress =>
    -- the last to have taken the lock still has it, and so is not the one that has returned
    have hne : id ≠ other := by
      rintro rfl
      rw [hother] at hid
      cases hid
      cases hprogress
    have hbefore : (id, c) ∈ before := by
      rw [List.mem_append, List.mem_singleton, Prod.mk.injEq] at hmem
      exact hmem.resolve_right fun heq => hne heq.1
    have hle := w.unseen_le_one
    refine List.take_subset_take_left _ (i := before.length) ?_ ?_
    · rw [List.length_append, List.length_singleton]
      omega
    · rw [List.take_left]
      exact hbefore

theorem Coherent.unseen_le_of_moves {a : Action} {new : Option (WriterId × StoreChange)}
    {w' : SharedStore} (h : w.Coherent s taken) (hm : w.Moves a new w') :
    w'.unseen ≤ w.unseen + new.toList.length := by
  cases hm with
  | @arrives id c hnew =>
    have hsame : (w.setWriter id ⟨c, .waiting⟩).unseen = w.unseen := by
      cases h.lock with
      | free hholder _ =>
        rw [unseen_of_free hholder]
        exact unseen_of_free hholder
      | @held before other d stage hholder hother _ =>
        have hne : id ≠ other := ne_of_writer? hnew hother
        have hother' : (w.setWriter id ⟨c, .waiting⟩).writer? other = some ⟨d, stage⟩ := by
          rw [writer?_setWriter, if_neg hne, hother]
        rw [unseen_of_held hholder hother]
        exact unseen_of_held hholder hother'
    rw [hsame]
    exact Nat.le_add_right _ _
  | locks =>
    exact Nat.le_trans (unseen_le_one _) (Nat.le_add_left 1 _)
  | @works id c stage hid hworks =>
    have hone : w.unseen = 1 := by
      rw [unseen_of_held (h.held hid hworks.not_apart).1 hid, hworks.hasPublished_eq]
      rfl
    rw [hone]
    exact unseen_le_one _
  | returns =>
    exact Nat.le_trans (Nat.le_of_eq (unseen_of_free rfl)) (Nat.zero_le _)
  | stays => exact Nat.le_refl _

end AuditTrail.SharedStore
