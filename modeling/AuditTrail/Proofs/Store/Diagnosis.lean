import AuditTrail.Proofs.Files.Frame
import AuditTrail.Proofs.Store.Atomicity
import AuditTrail.Proofs.Store.Setup

/-!
# What a failure is called

A load that cannot read the document and a change that cannot write it report a store error, which
names the path and says what was tried.  A setup asks first whether there is a document at all, and
where the path cannot be followed so far it hands on the fault of the system as it is.  That is the
one failure that is no store error (`diagnosis`), and a load says of the same fault that it is one.
-/

namespace AuditTrail

/-! ## Paths that cannot be followed -/

namespace FileTree

variable {t : FileTree} {place : Place} {segment : String} {fault : OsFault}

/-- Something is there but the path cannot go on from it: it is a file, or the next name is too
long. -/
theorem follow_eq_error_iff (hfault : fault ≠ .notFound) :
    t.follow place segment = .error fault ↔
      fault = .notDirectory ∧ (∃ bytes, t.node? place = some (.file bytes)) ∨
        fault = .nameTooLong ∧ t.node? place = some .directory ∧
          maxNameSize < segment.utf8ByteSize := by
  cases hnode : t.node? place with
  | none =>
    have hfollow : t.follow place segment = .error .notFound := by
      rw [FileTree.follow, enter, hnode]
      rfl
    simp [hfollow, hfault.symm]
  | some node =>
    cases node with
    | file bytes =>
      have hfollow : t.follow place segment = .error .notDirectory := by
        rw [FileTree.follow, enter, hnode]
        rfl
      simp [hfollow, eq_comm]
    | directory =>
      have hfollow := follow_of_directory hnode segment
      split at hfollow
      · rename_i hlong
        simp [hfollow, hlong, eq_comm]
      · rename_i hshort
        obtain ⟨next, hnext⟩ := hfollow
        simp [hnext, hshort]

theorem exists_follow_of_findFrom {segments : List String} (hfault : fault ≠ .notFound)
    (h : t.findFrom place segments = .error fault) :
    ∃ outer segment inner reached, segments = outer ++ segment :: inner ∧
      outer.foldlM t.follow place = .ok reached ∧ t.follow reached segment = .error fault := by
  induction segments generalizing place with
  | nil =>
    rw [findFrom_nil] at h
    split at h
    · cases h
    · cases h
      exact absurd rfl hfault
  | cons s segments ih =>
    rw [findFrom_cons] at h
    cases hfollow : t.follow place s with
    | error other =>
      rw [hfollow] at h
      cases h
      exact ⟨[], s, segments, place, rfl, rfl, hfollow⟩
    | ok next =>
      rw [hfollow] at h
      obtain ⟨outer, segment, inner, reached, rfl, hreached, hfails⟩ := ih h
      refine ⟨s :: outer, segment, inner, reached, rfl, ?_, hfails⟩
      rw [List.foldlM_cons, hfollow]
      exact hreached

theorem findFrom_of_follow {outer : List String} {reached : Place}
    (hreached : outer.foldlM t.follow place = .ok reached)
    (hfails : t.follow reached segment = .error fault) (inner : List String) :
    t.findFrom place (outer ++ segment :: inner) = .error fault := by
  rw [findFrom_append hreached, findFrom_cons, hfails]
  rfl

end FileTree

namespace FileStore

variable {s : FileStore} {e : Error} {fault : OsFault}

/-- The path cannot be followed to where the document would be. -/
def IsCutOff (s : FileStore) : Prop := ∃ fault, s.files.exists? s.path = .error fault

/-- A path is cut off by a zero character, by a file that it leads on from, and by a name that is
too long. -/
theorem isCutOff_iff :
    s.IsCutOff ↔ s.path.hasZero = true ∨
      ∃ outer segment inner place, s.path.segments = outer ++ segment :: inner ∧
        s.files.resolve ⟨outer⟩ = .ok place ∧
          ((∃ bytes, s.files.node? place = some (.file bytes)) ∨
            s.files.node? place = some .directory ∧
              FileTree.maxNameSize < segment.utf8ByteSize) := by
  cases hzero : s.path.hasZero with
  | true =>
    have hfind : s.files.find s.path = .error .zeroInPath := by
      rw [FileTree.find_eq_findFrom, if_pos hzero]
    exact ⟨fun _ => .inl rfl, fun _ => ⟨_, FileTree.exists?_eq_error_iff.2 ⟨hfind, by decide⟩⟩⟩
  | false =>
    have hfind : s.files.find s.path = s.files.findFrom [] s.path.segments := by
      rw [FileTree.find_eq_findFrom, if_neg (by simp [hzero])]
    simp only [IsCutOff, FileTree.exists?_eq_error_iff, hfind, Bool.false_eq_true, false_or]
    constructor
    · rintro ⟨fault, hfails, hfault⟩
      obtain ⟨outer, segment, inner, place, hsegments, hplace, hfollow⟩ :=
        FileTree.exists_follow_of_findFrom hfault hfails
      have hwhole : FilePath.hasZero ⟨outer⟩ = false :=
        FilePath.hasZero_of_isPrefix ⟨segment :: inner, hsegments.symm⟩ hzero
      refine ⟨outer, segment, inner, place, hsegments,
        FileTree.resolve_eq_ok_iff.2 ⟨hwhole, hplace⟩, ?_⟩
      exact ((FileTree.follow_eq_error_iff hfault).1 hfollow).imp And.right And.right
    · rintro ⟨outer, segment, inner, place, hsegments, hplace, hblocked⟩
      obtain ⟨fault, hfault, hfollow⟩ : ∃ fault, fault ≠ .notFound ∧
          s.files.follow place segment = .error fault := by
        rcases hblocked with hfile | hlong
        · exact ⟨.notDirectory, by decide,
            (FileTree.follow_eq_error_iff (by decide)).2 (.inl ⟨rfl, hfile⟩)⟩
        · exact ⟨.nameTooLong, by decide,
            (FileTree.follow_eq_error_iff (by decide)).2 (.inr ⟨rfl, hlong⟩)⟩
      rw [hsegments]
      have hplace' := (FileTree.resolve_eq_ok_iff.1 hplace).2
      exact ⟨fault, FileTree.findFrom_of_follow hplace' hfollow inner, hfault⟩

/-! ## The failures of each step -/

/-- Whatever the answer fails with is a store error. -/
def FailsInStore {α : Type} (answer : Except Error α) : Prop :=
  ∀ e, answer = .error e → ∃ fault, e = .store fault

theorem FailsInStore.map {α β : Type} {answer : Except Error α} (h : FailsInStore answer)
    (f : α → β) : FailsInStore (answer.map f) :=
  fun e hfails => h e (eq_error_of_map hfails)

theorem failsInStore_readAll (s : FileStore) : FailsInStore s.readAll :=
  fun _ hfails => exists_store_of_readAll hfails

/-- What fails for want of the document fails as reading it does. -/
theorem failsInStore_of_readAll {α : Type} (h : s.readAll = .error e) :
    FailsInStore (.error e : Except Error α) := by
  intro other hother
  cases hother
  exact exists_store_of_readAll h

theorem failsInStore_writeAll (s : FileStore) (table : WhitelistTable) :
    FailsInStore (s.writeAll table).1 := by
  intro e h
  cases refusesWrite_of_writeAll h <;> exact ⟨_, rfl⟩

theorem failsInStore_update (s : FileStore) (change : WhitelistTable → WhitelistTable) :
    FailsInStore (s.update change).1 := by
  rw [update]
  cases hread : s.readAll with
  | error e => exact failsInStore_of_readAll hread
  | ok table => exact failsInStore_writeAll s (change table)

theorem failsInStore_load (s : FileStore) (role : Role) : FailsInStore (s.load role) := by
  rw [load]
  cases hread : s.readAll with
  | error e => exact failsInStore_of_readAll hread
  | ok table =>
    intro e h
    cases h

theorem failsInStore_setup (h : ¬ s.IsCutOff) : FailsInStore s.setup.1 := by
  cases hthere : s.files.exists? s.path with
  | error fault => exact absurd ⟨fault, hthere⟩ h
  | ok there =>
    cases there with
    | true =>
      rw [setup_of_there hthere]
      exact (failsInStore_readAll s).map _
    | false =>
      rw [setup_of_absent hthere]
      exact failsInStore_writeAll s ∅

/-- A call fails with a store error, but for a setup that cannot follow its path. -/
theorem failsInStore_perform {call : FileStoreCall}
    (h : call = .common .setup → ¬ s.IsCutOff) : FailsInStore (s.perform call).1 := by
  cases call with
  | saveRole role w => exact (failsInStore_update s _).map _
  | common call =>
    cases call with
    | setup => exact (failsInStore_setup (h rfl)).map _
    | grant role r ps => exact (failsInStore_update s _).map _
    | load role => exact (failsInStore_load s role).map _

/-! ## A setup and a load of the same store -/

theorem load_of_lost (h : s.files.exists? s.path = .error fault) (role : Role) :
    s.load role = .error (.store (.unreadable s.path.toString fault)) := by
  obtain ⟨hfind, hfault⟩ := FileTree.exists?_eq_error_iff.1 h
  have hread : s.readAll = .error (.store (.unreadable s.path.toString fault)) := by
    rw [readAll, FileTree.readText_of_find hfind]
    split
    · rename_i hnone
      cases hnone
      exact absurd rfl hfault
    · rename_i hfails
      cases hfails
      rfl
    · rename_i htext
      cases htext
  rw [load, hread]
  rfl

theorem setup_of_load {role : Role} (h : s.load role = .error e) (hreaches : ¬ s.IsCutOff) :
    s.setup = (.error e, s) := by
  have hread : s.readAll = .error e := eq_error_of_map h
  cases hthere : s.files.exists? s.path with
  | error fault => exact absurd ⟨fault, hthere⟩ hreaches
  | ok there =>
    cases there with
    | true =>
      rw [setup_of_there hthere, hread]
      rfl
    | false =>
      rw [readAll_of_absent hthere] at hread
      cases hread

/-- Every failure is a store error, and a setup fails as a load does, unless it is a setup whose
path cannot be followed. -/
theorem diagnosis (s : FileStore) :
    (∀ call e, (s.perform call).1 = .error e →
      ((∃ fault, e = .store fault) ↔ (call = .common .setup → ¬ s.IsCutOff)) ∧
        (e.isLookup = true ↔ ∃ fault, e = .store fault)) ∧
      (∀ role e, s.load role = .error e → (s.setup.1 = .error e ↔ ¬ s.IsCutOff)) ∧
      ∀ fault, s.files.exists? s.path = .error fault →
        s.setup.1 = .error (.io fault) ∧
          ∀ role, s.load role = .error (.store (.unreadable s.path.toString fault)) := by
  refine ⟨fun call e hfails => ?_, fun role e hload => ⟨?_, fun hreaches => ?_⟩,
    fun fault hlost => ⟨by rw [setup_of_lost hlost], load_of_lost hlost⟩⟩
  · by_cases hstep : call = .common .setup → ¬ s.IsCutOff
    · obtain ⟨fault, rfl⟩ := failsInStore_perform hstep e hfails
      exact ⟨⟨fun _ => hstep, fun _ => ⟨fault, rfl⟩⟩, ⟨fun _ => ⟨fault, rfl⟩, fun _ => rfl⟩⟩
    · obtain ⟨rfl, fault, hlost⟩ : call = .common .setup ∧ s.IsCutOff := by simpa using hstep
      rw [perform, setup_of_lost hlost] at hfails
      cases hfails
      simp [show s.IsCutOff from ⟨fault, hlost⟩, Error.isLookup]
  · rintro hsetup ⟨fault, hlost⟩
    rw [setup_of_lost hlost] at hsetup
    cases hsetup
    rw [load_of_lost hlost] at hload
    cases hload
  · rw [setup_of_load hload hreaches]

namespace Misfiled

/-- A store with a file where the directory of its document would be. -/
def store : FileStore :=
  ⟨⟨["state", "roles.json"]⟩, FileTree.empty.insert ["state"] (.file .empty)⟩

theorem isCutOff_store : store.IsCutOff :=
  isCutOff_iff.2 (.inr ⟨["state"], "roles.json", [], ["state"], rfl, by cbv, .inl ⟨_, by cbv⟩⟩)

end Misfiled

open Drafts SampleRole in
theorem diagnosis_blocked :
    (∃ fault, (blocked.perform exempting).1 = .error (.store fault)) ∧
      ∃ e, Misfiled.store.load auditor = .error e ∧ e.isLookup = true ∧
        Misfiled.store.setup.1 ≠ .error e := by
  have hfails : (blocked.perform exempting).1 =
      .error (.store (.unwritable "roles.tmp" .isDirectory)) := by cbv
  obtain ⟨fault, hfault⟩ := ((diagnosis blocked).1 _ _ hfails).1.2 (by simp [exempting])
  have hload : Misfiled.store.load auditor =
      .error (.store (.unreadable "state/roles.json" .notDirectory)) := by cbv
  refine ⟨⟨fault, by rw [hfails, hfault]⟩, _, hload, rfl, fun hsetup => ?_⟩
  exact ((diagnosis Misfiled.store).2.1 _ _ hload).1 hsetup Misfiled.isCutOff_store

open SampleRole in
/-- A load and a setup meet the same fault.  The load reports a store error, and the setup hands on
the fault. -/
theorem setup_unlike_load :
    Misfiled.store.load auditor =
        .error (.store (.unreadable "state/roles.json" .notDirectory)) ∧
      (Misfiled.store.perform (.common .setup)).1 = .error (.io .notDirectory) ∧
      (Error.io .notDirectory).isLookup = false := by
  exact ⟨by cbv, by cbv, rfl⟩

end FileStore
end AuditTrail
