import AuditTrail.Proofs.Files.Writing
import AuditTrail.Proofs.Whitelist.Rereading
import AuditTrail.Store.File

/-!
# The document of a store

A store that can write a document reads back what it has written, and can write again.  A setup
reads the document that is there, or writes an empty one.
-/

namespace AuditTrail

/-- The file system has refused one of the steps of a write. -/
inductive Error.RefusesWrite : Error → Prop
  | noDirectory (path : String) (fault : OsFault) : RefusesWrite (.store (.noDirectory path fault))
  | unwritable (path : String) (fault : OsFault) : RefusesWrite (.store (.unwritable path fault))
  | notRenamed (source target : String) (fault : OsFault) :
      RefusesWrite (.store (.notRenamed source target fault))

namespace FileStore

variable {s : FileStore} {files : FileTree} {draft place : Place} {table : WhitelistTable}

/-- A document can be written now. -/
def IsWritable (s : FileStore) : Prop := (s.writeAll ∅).1 = .ok ()

/-- The directory around the document is there, and a file can be put beside the document and in its
place. -/
structure Accepts (s : FileStore) (files : FileTree) (draft place : Place) : Prop where
  parent : files.isDirectory s.path.parent = true
  draft : files.Takes s.draftPath draft
  document : files.Takes s.path place

/-- The tree when a document has been written and renamed. -/
def published (files : FileTree) (draft place : Place) (text : String) : FileTree :=
  .insert ⟨(files.insert draft (.file text.toUTF8)).nodes.erase draft⟩ place (.file text.toUTF8)

/-! ## The steps of a write -/

theorem andThen_eq_ok_iff {step : Except Error Unit × FileStore}
    {next : FileStore → Except Error Unit × FileStore} {s' : FileStore} :
    andThen step next = (.ok (), s') ↔ ∃ mid, step = (.ok (), mid) ∧ next mid = (.ok (), s') := by
  obtain ⟨answer, mid⟩ := step
  cases answer with
  | ok done => simp [andThen]
  | error e => simp [andThen]

theorem andThen_eq_error_iff {step : Except Error Unit × FileStore}
    {next : FileStore → Except Error Unit × FileStore} {e : Error} :
    (andThen step next).1 = .error e ↔
      step.1 = .error e ∨ ∃ mid, step = (.ok (), mid) ∧ (next mid).1 = .error e := by
  obtain ⟨answer, mid⟩ := step
  cases answer with
  | ok done => simp [andThen]
  | error fault => simp [andThen]

theorem ensureParent_eq_ok_iff {s' : FileStore} :
    s.ensureParent = (.ok (), s') ↔
      ∃ files, s.files.createDirectories s.path.parent = (.ok (), files) ∧
        s' = { s with files } := by
  rw [ensureParent]
  split
  · rename_i files h
    simp [h, eq_comm]
  · rename_i fault files h
    simp [h]

theorem writeDraft_eq_ok_iff {text : String} {s' : FileStore} :
    s.writeDraft text = (.ok (), s') ↔
      ∃ files, s.files.writeText s.draftPath text = .ok files ∧ s' = { s with files } := by
  rw [writeDraft]
  split
  · rename_i files h
    simp [h, eq_comm]
  · rename_i fault h
    simp [h]

theorem publishDraft_eq_ok_iff {s' : FileStore} :
    s.publishDraft = (.ok (), s') ↔
      ∃ files, s.files.rename s.draftPath s.path = .ok files ∧ s' = { s with files } := by
  rw [publishDraft]
  split
  · rename_i files h
    simp [h, eq_comm]
  · rename_i fault h
    simp [h]

/-! ## A whole write -/

theorem writeAll_eq_ok_iff {s' : FileStore} :
    s.writeAll table = (.ok (), s') ↔
      ∃ files draft place, s.files.createDirectories s.path.parent = (.ok (), files) ∧
        s.Accepts files draft place ∧
        s' = { s with files := published files draft place (WhitelistTable.toText table) } := by
  simp only [writeAll, andThen_eq_ok_iff, ensureParent_eq_ok_iff, writeDraft_eq_ok_iff,
    publishDraft_eq_ok_iff]
  constructor
  · rintro ⟨-, ⟨files, hparent, rfl⟩, -, ⟨drafted, hdraft, rfl⟩, renamed, hrename, rfl⟩
    obtain ⟨draft, htakes, rfl⟩ := FileTree.writeText_eq_ok_iff.1 hdraft
    obtain ⟨origin, place, bytes, horigin, hplace, hbytes, rfl⟩ :=
      FileTree.rename_eq_ok_iff.1 hrename
    have hsame := FileTree.sameDirectories_insert_file htakes.ne_nil htakes.free
      (WhitelistTable.toText table).toUTF8
    -- the draft changes no directory, so the path to it still leads where it led
    obtain rfl : origin = draft := horigin.unique (htakes.of_sameDirectories hsame)
    rw [FileTree.node?_insert htakes.ne_nil, if_pos rfl, Option.some.injEq,
      FileNode.file.injEq] at hbytes
    subst hbytes
    exact ⟨files, origin, place, hparent, ⟨FileTree.isDirectory_of_createDirectories hparent,
      htakes, hplace.of_sameDirectories hsame.symm⟩, rfl⟩
  · rintro ⟨files, draft, place, hparent, haccepts, rfl⟩
    have hsame := FileTree.sameDirectories_insert_file haccepts.draft.ne_nil haccepts.draft.free
      (WhitelistTable.toText table).toUTF8
    have hdrafted : (files.insert draft (.file (WhitelistTable.toText table).toUTF8)).node? draft =
        some (.file (WhitelistTable.toText table).toUTF8) := by
      rw [FileTree.node?_insert haccepts.draft.ne_nil, if_pos rfl]
    refine ⟨_, ⟨files, hparent, rfl⟩, _, ⟨_, FileTree.writeText_eq_ok_iff.2
      ⟨draft, haccepts.draft, rfl⟩, rfl⟩, _, FileTree.rename_eq_ok_iff.2 ⟨draft, place, _, ?_, ?_,
      hdrafted, rfl⟩, rfl⟩
    · exact haccepts.draft.of_sameDirectories hsame
    · exact haccepts.document.of_sameDirectories hsame

/-- A write fails only in a call of the file system. -/
theorem refusesWrite_of_writeAll {e : Error} (h : (s.writeAll table).1 = .error e) :
    e.RefusesWrite := by
  simp only [writeAll, andThen_eq_error_iff] at h
  rcases h with hparent | ⟨s₁, -, hdraft | ⟨s₂, -, hpublish⟩⟩
  · rw [ensureParent] at hparent
    split at hparent <;> cases hparent
    exact .noDirectory _ _
  · rw [writeDraft] at hdraft
    split at hdraft <;> cases hdraft
    exact .unwritable _ _
  · rw [publishDraft] at hpublish
    split at hpublish <;> cases hpublish
    exact .notRenamed _ _ _

variable {text : String}

/-- Writing and renaming a document changes no directory. -/
theorem Accepts.sameDirectories (h : s.Accepts files draft place) :
    FileTree.SameDirectories files (published files draft place text) := by
  have hdrafted := FileTree.sameDirectories_insert_file h.draft.ne_nil h.draft.free text.toUTF8
  have hdraft : (files.insert draft (.file text.toUTF8)).node? draft ≠ some .directory := by
    rw [FileTree.node?_insert h.draft.ne_nil, if_pos rfl]
    simp
  have herased := hdrafted.trans (FileTree.sameDirectories_erase hdraft)
  refine herased.trans (FileTree.sameDirectories_insert_file h.document.ne_nil ?_ text.toUTF8)
  exact fun hnode => h.document.free ((herased place).2 hnode)

theorem Accepts.published (h : s.Accepts files draft place) :
    s.Accepts (published files draft place text) draft place :=
  ⟨h.sameDirectories.keeps.isDirectory h.parent, h.draft.of_sameDirectories h.sameDirectories,
    h.document.of_sameDirectories h.sameDirectories⟩

theorem Accepts.readText (h : s.Accepts files draft place) :
    (FileStore.published files draft place text).readText s.path = .ok text := by
  refine FileTree.readText_of_resolve h.published.document.resolve ?_
  rw [FileStore.published, FileTree.node?_insert h.document.ne_nil, if_pos rfl]

/-- A store that can write a document now writes any, has it in its place then, and can write
again. -/
theorem writeAll_of_isWritable (h : s.IsWritable) (table : WhitelistTable) :
    ∃ files, s.writeAll table = (.ok (), { s with files }) ∧
      files.readText s.path = .ok (WhitelistTable.toText table) ∧
      IsWritable { s with files } := by
  have hempty : s.writeAll ∅ = (.ok (), (s.writeAll ∅).2) := Prod.ext h rfl
  obtain ⟨files, draft, place, hparent, haccepts, -⟩ := writeAll_eq_ok_iff.1 hempty
  let files' := published files draft place (WhitelistTable.toText table)
  have hafter : Accepts { s with files := files' } files' draft place :=
    ⟨haccepts.published.parent, haccepts.published.draft, haccepts.published.document⟩
  have hagain : ({ s with files := files' } : FileStore).writeAll ∅ =
      (.ok (), { s with files := published files' draft place (WhitelistTable.toText ∅) }) :=
    writeAll_eq_ok_iff.2 ⟨files', draft, place,
      FileTree.createDirectories_of_isDirectory hafter.parent, hafter, rfl⟩
  refine ⟨files', writeAll_eq_ok_iff.2 ⟨files, draft, place, hparent, haccepts, rfl⟩,
    haccepts.readText, ?_⟩
  rw [IsWritable, hagain]

/-! ## Reading -/

theorem readAll_of_readText (h : s.files.readText s.path = .ok (WhitelistTable.toText table))
    (htable : WhitelistTable.IsNormal table) : s.readAll = .ok table := by
  rw [readAll, h]
  simp only [WhitelistTable.isAllBlank_toText, Bool.false_eq_true, if_false,
    WhitelistTable.ofText_toText htable]

theorem readAll_eq_reread (h : s.files.readText s.path = .ok (WhitelistTable.toText table))
    (htable : WhitelistTable.All Resource.Made table) : s.readAll = .ok table.reread := by
  rw [readAll, h]
  simp only [WhitelistTable.isAllBlank_toText, Bool.false_eq_true, if_false,
    WhitelistTable.ofText_toText_eq_reread htable.hasSegment]

theorem readAll_of_writeAll {s' : FileStore} (htable : WhitelistTable.All Resource.Made table)
    (h : s.writeAll table = (.ok (), s')) : s'.readAll = .ok table.reread := by
  obtain ⟨files, draft, place, -, haccepts, rfl⟩ := writeAll_eq_ok_iff.1 h
  exact readAll_eq_reread haccepts.readText htable

theorem isNormal_of_readAll (h : s.readAll = .ok table) : WhitelistTable.IsNormal table := by
  rw [readAll] at h
  split at h
  · cases h
    exact WhitelistTable.all_empty
  · cases h
  · rename_i text htext
    split at h
    · cases h
      exact WhitelistTable.all_empty
    · split at h
      · rename_i read hread
        cases h
        exact WhitelistTable.isNormal_of_ofText hread
      · cases h

/-- Whatever keeps a document from being read is a store error. -/
theorem exists_store_of_readAll {e : Error} (h : s.readAll = .error e) :
    ∃ fault, e = .store fault := by
  rw [readAll] at h
  split at h
  · cases h
  · cases h
    exact ⟨_, rfl⟩
  · split at h
    · cases h
    · split at h
      · cases h
      · cases h
        exact ⟨_, rfl⟩

theorem load_of_readAll (h : s.readAll = .ok table) (role : Role) :
    s.load role = .ok (table.getD role ∅) := by
  rw [load, h]
  rfl

/-! ## The three ways of a setup -/

theorem setup_of_there (h : s.files.exists? s.path = .ok true) :
    s.setup = (s.readAll.map fun _ => (), s) := by
  rw [setup, h]

theorem setup_of_absent (h : s.files.exists? s.path = .ok false) : s.setup = s.writeAll ∅ := by
  rw [setup, h]

theorem setup_of_lost {fault : OsFault} (h : s.files.exists? s.path = .error fault) :
    s.setup = (.error (.io fault), s) := by
  rw [setup, h]

theorem setup_eq_ok_iff {s' : FileStore} :
    s.setup = (.ok (), s') ↔
      s.files.exists? s.path = .ok true ∧ (∃ table, s.readAll = .ok table) ∧ s' = s ∨
        s.files.exists? s.path = .ok false ∧ s.writeAll ∅ = (.ok (), s') := by
  cases hthere : s.files.exists? s.path with
  | error fault => simp [setup_of_lost hthere]
  | ok there =>
    cases there with
    | false => simp [setup_of_absent hthere]
    | true =>
      rw [setup_of_there hthere]
      cases s.readAll with
      | error e => simp [Except.map]
      | ok table => simp [Except.map, eq_comm]

end FileStore

/-! ## Changes -/

namespace WhitelistTable

variable {P : Resource → Prop} {t : WhitelistTable} {role : Role} {r : Resource} {w : Whitelist}

theorem All.granting (h : All P t) (hr : P r) (ps : List Permission) :
    All P (FileStore.granting role r ps t) :=
  h.insert ((h.getD role).grant hr ps)

theorem All.saving (h : All P t) (hw : w.All P) : All P (FileStore.saving role w t) := by
  rw [FileStore.saving]
  split
  · exact h.erase
  · exact h.insert hw

end WhitelistTable
end AuditTrail
