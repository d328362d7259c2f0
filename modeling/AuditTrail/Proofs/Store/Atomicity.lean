import AuditTrail.Proofs.Store.Refinement
import AuditTrail.Proofs.Store.Settled

/-!
# Writes that take effect in one step

Between the start of a write and its rename nothing changes at the path of the document, whatever
part of the draft has been written (`Writing.find_eq`).  So a write that succeeds is atomic
(`atomic_iff`), and one that fails has changed nothing that a load could see (`perform_error`).

All of this rests on the draft having another name than the document.  The name of the draft is that
of the document with `tmp` for its extension, so a document with this very extension is its own
draft (`isApart_iff`).
-/

namespace AuditTrail.FileStore

/-- A tree that a load or a crash can meet between the start of a write and its rename.  Any part of
the draft may have been written, or none. -/
inductive Writing (s : FileStore) : FileTree → Prop
  | start : Writing s s.files
  | creates {t t' : FileTree} {p : FilePath} (h : Writing s t) (hp : p ∈ s.path.parent.ancestors)
      (hcreated : t.createDirectory p = .ok t') : Writing s t'
  | writes {t t' : FileTree} {bytes : ByteArray} (h : Writing s t)
      (hwritten : t.writeBytes s.draftPath bytes = .ok t') : Writing s t'

/-- The draft has another name than the document. -/
def IsApart (s : FileStore) : Prop :=
  ∀ name, s.path.name? = some name → s.draftPath.name? ≠ some name

/-- The directories around the document can be created without the path leading elsewhere then: they
are there already, or the path goes inwards only. -/
def IsSteady (s : FileStore) : Prop :=
  s.files.isDirectory s.path.parent = true ∨ s.files.IsSound ∧ s.path.IsPlain

/-- A write from one state to another that takes effect in its rename alone. -/
structure Atomic (s : FileStore) (table : WhitelistTable) (s' : FileStore) : Prop where
  keeps : ∀ files, s.Writing files → files.find s.path = s.files.find s.path
  loads : ∀ files role, s.Writing files → load { s with files } role = s.load role
  renames : ∃ files, s.Writing files ∧
    files.readText s.draftPath = .ok (WhitelistTable.toText table) ∧
    publishDraft { s with files } = (.ok (), s')
  replaces : s'.files.readText s.path = .ok (WhitelistTable.toText table)
  clears : s'.files.find s.draftPath = .error .notFound

variable {s s' : FileStore} {files : FileTree} {table : WhitelistTable} {e : Error}

/-! ## The name of the draft -/

/-- Only a document whose name is `base.tmp` can be its own draft. -/
theorem isApart_iff :
    s.IsApart ↔ ∀ base, base ≠ "" → s.path.name? = some (base ++ ".tmp") →
      base = "." ∧ s.path = s.path.trimmed := by
  have hlong : 2 ≤ "tmp".length := by decide
  have hdotted : "." ++ "tmp" = ".tmp" := by decide
  constructor
  · intro hapart base hbase hname
    obtain ⟨hnamed, outer, houter⟩ := FilePath.name?_eq_some_iff.1 hname
    have hstem : FilePath.stem (base ++ ".tmp").toList = base.toList := by
      rw [String.toList_append]
      exact FilePath.stem_append (by simpa using hbase) (by decide)
    have hdraft := FilePath.name?_withExtension houter hnamed hlong
    rw [hstem, String.ofList_toList, hdotted] at hdraft
    split at hdraft
    · rename_i hdot
      exact ⟨String.toList_inj.1 hdot.1, hdot.2⟩
    · exact absurd hdraft (hapart _ hname)
  · intro h name hname hdraft
    obtain ⟨hnamed, outer, houter⟩ := FilePath.name?_eq_some_iff.1 hname
    rw [draftPath, FilePath.name?_withExtension houter hnamed hlong, hdotted] at hdraft
    split at hdraft
    · cases hdraft
    · rename_i hother
      rw [Option.some.injEq] at hdraft
      have hchars : name.toList ≠ [] := by
        intro hnil
        rw [String.toList_eq_nil_iff.1 hnil] at hnamed
        exact absurd hnamed (by decide)
      have hbase : String.ofList (FilePath.stem name.toList) ≠ "" :=
        fun hempty => FilePath.stem_ne_nil hchars (String.ofList_eq_empty_iff.1 hempty)
      obtain ⟨hdot, htrimmed⟩ := h _ hbase (by rw [hname, hdraft])
      refine hother ⟨?_, htrimmed⟩
      have hlist := congrArg String.toList hdot
      rw [String.toList_ofList] at hlist
      exact hlist

theorem isApart_of_name? {name draft : String} (hname : s.path.name? = some name)
    (hdraft : s.draftPath.name? = some draft) (hne : draft ≠ name) : s.IsApart := by
  intro other hother hsame
  rw [hname, Option.some.injEq] at hother
  rw [hdraft, Option.some.injEq] at hsame
  exact hne (hsame.trans hother.symm)

/-! ## Before the rename -/

theorem readAll_eq_of_find (hfind : files.find s.path = s.files.find s.path) :
    readAll { s with files } = s.readAll :=
  readAll_eq_of_readText rfl (FileTree.readText_congr hfind)

theorem load_eq_of_find (hfind : files.find s.path = s.files.find s.path) (role : Role) :
    load { s with files } role = s.load role := by
  rw [load, load, readAll_eq_of_find hfind]

theorem Writing.keepsDirectories (h : s.Writing files) :
    FileTree.KeepsDirectories s.files files := by
  induction h with
  | start => exact fun _ hnode => hnode
  | creates _ _ hcreated ih =>
    obtain ⟨target, place, -, -, hplace, -, rfl⟩ := FileTree.createDirectory_eq_ok_iff.1 hcreated
    have hne := FileTree.placeIn_ne_nil hplace
    exact fun q hnode => FileTree.keepsDirectories_insert_directory hne q (ih q hnode)
  | @writes t t' bytes _ hwritten ih =>
    obtain ⟨draft, htakes, rfl⟩ := FileTree.writeBytes_eq_ok_iff.1 hwritten
    have hsame := FileTree.sameDirectories_insert_file htakes.ne_nil htakes.free bytes
    exact fun q hnode => hsame.keeps q (ih q hnode)

theorem Writing.isSound (h : s.Writing files) (hsound : s.files.IsSound) : files.IsSound := by
  induction h with
  | start => exact hsound
  | creates _ _ hcreated ih => exact ih.createDirectory hcreated
  | @writes t t' bytes _ hwritten ih =>
    obtain ⟨draft, htakes, rfl⟩ := FileTree.writeBytes_eq_ok_iff.1 hwritten
    exact ih.insert_file htakes bytes

theorem Writing.find_eq (h : s.Writing files) (hsteady : s.IsSteady) (hapart : s.IsApart) :
    files.find s.path = s.files.find s.path := by
  induction h with
  | start => rfl
  | @creates t t' p hbefore hp hcreated ih =>
    rw [← ih]
    rcases hsteady with hparent | ⟨hsound, hplain⟩
    · -- the directory is there already, so it cannot have been created
      have hthere : t.isDirectory p = true :=
        FileTree.isDirectory_of_prefix (hbefore.keepsDirectories.isDirectory hparent)
          (FilePath.isPrefix_of_mem_ancestors hp)
      rw [FileTree.not_isDirectory_of_createDirectory hcreated] at hthere
      cases hthere
    · exact FileTree.find_of_createDirectory (hbefore.isSound hsound) hplain hp hcreated
  | @writes t t' bytes hbefore hwritten ih =>
    rw [← ih]
    obtain ⟨draft, htakes, rfl⟩ := FileTree.writeBytes_eq_ok_iff.1 hwritten
    exact htakes.find_insert_file hapart bytes

namespace Drafts

/-- A store whose path leads out of a directory that is not there, and so leads nowhere. -/
def detour : FileStore :=
  ⟨⟨["lists", "..", "roles.json"]⟩, FileTree.empty.insert ["roles.json"] (.file .empty)⟩

end Drafts

-- Where the path is not plain, a directory that is created can change what is found at it.
open Drafts in
example : ∃ files, detour.Writing files ∧ detour.files.exists? detour.path = .ok false ∧
    files.exists? detour.path = .ok true := by
  have hancestors : detour.path.parent.ancestors =
      [⟨["lists", ".."]⟩, ⟨["lists"]⟩, ⟨[]⟩] := by cbv
  have hmem : ⟨["lists"]⟩ ∈ detour.path.parent.ancestors := by
    rw [hancestors]
    decide
  have hcreated : detour.files.createDirectory ⟨["lists"]⟩ =
      .ok (detour.files.insert ["lists"] .directory) :=
    FileTree.createDirectory_eq_ok_iff.2
      ⟨⟨[], "lists", false⟩, ["lists"], by cbv, by cbv, by cbv, by cbv, rfl⟩
  exact ⟨_, .creates .start hmem hcreated, by cbv, by cbv⟩

/-! ## The steps of a write, as far as they go -/

theorem Writing.ensureDirectory {t t' : FileTree} {p : FilePath} (h : s.Writing t)
    (hp : p ∈ s.path.parent.ancestors) (hensured : t.ensureDirectory p = .ok t') :
    s.Writing t' := by
  rw [FileTree.ensureDirectory] at hensured
  cases hcreated : t.createDirectory p with
  | ok created =>
    rw [hcreated] at hensured
    cases hensured
    exact h.creates hp hcreated
  | error fault =>
    rw [hcreated] at hensured
    simp only at hensured
    split at hensured
    · cases hensured
      exact h
    · cases hensured

theorem Writing.createAlong {t : FileTree} {paths : List FilePath} (h : s.Writing t)
    (hpaths : ∀ p ∈ paths, p ∈ s.path.parent.ancestors) : s.Writing (t.createAlong paths).2 := by
  induction paths generalizing t with
  | nil => exact h
  | cons p outer ih =>
    rw [List.forall_mem_cons] at hpaths
    have houter := ih h hpaths.2
    rw [FileTree.createAlong]
    split
    · rename_i hensured
      exact h.ensureDirectory hpaths.1 hensured
    · split
      · rename_i halong
        rw [halong] at houter
        exact houter
      · rename_i halong
        rw [halong] at houter
        split
        · rename_i hensured
          exact houter.ensureDirectory hpaths.1 hensured
        · exact houter
    · exact h

theorem exists_writing_ensureParent (s : FileStore) :
    ∃ files, s.ensureParent.2 = { s with files } ∧ s.Writing files := by
  have hcreated : s.Writing (s.files.createDirectories s.path.parent).2 :=
    Writing.createAlong .start fun _ hp => hp
  rw [ensureParent]
  split
  · rename_i h
    rw [h] at hcreated
    exact ⟨_, rfl, hcreated⟩
  · rename_i h
    rw [h] at hcreated
    exact ⟨_, rfl, hcreated⟩

theorem Writing.writeDraft (h : s.Writing files) (text : String) :
    ∃ drafted, (FileStore.writeDraft { s with files } text).2 = { s with files := drafted } ∧
      s.Writing drafted := by
  rw [FileStore.writeDraft]
  split
  · rename_i hwritten
    exact ⟨_, rfl, h.writes hwritten⟩
  · exact ⟨_, rfl, h⟩

theorem andThen_of_ok {step : Except Error Unit × FileStore}
    {next : FileStore → Except Error Unit × FileStore} {done : Unit} (h : step.1 = .ok done) :
    andThen step next = next step.2 := by
  obtain ⟨answer, mid⟩ := step
  subst h
  rfl

theorem andThen_of_error {step : Except Error Unit × FileStore}
    {next : FileStore → Except Error Unit × FileStore} (h : step.1 = .error e) :
    andThen step next = (.error e, step.2) := by
  obtain ⟨answer, mid⟩ := step
  subst h
  rfl

/-- A write that fails ends between its start and its rename. -/
theorem exists_writing_of_writeAll (h : (s.writeAll table).1 = .error e) :
    ∃ files, (s.writeAll table).2 = { s with files } ∧ s.Writing files := by
  obtain ⟨housed, hhoused, hwriting⟩ := exists_writing_ensureParent s
  obtain ⟨drafted, hdrafted, hdraft⟩ := hwriting.writeDraft (WhitelistTable.toText table)
  rw [writeAll] at h ⊢
  cases hparent : s.ensureParent.1 with
  | error fault =>
    rw [andThen_of_error hparent]
    exact ⟨housed, hhoused, hwriting⟩
  | ok done =>
    rw [andThen_of_ok hparent, hhoused] at h ⊢
    cases hwritten : (FileStore.writeDraft { s with files := housed }
        (WhitelistTable.toText table)).1 with
    | error fault =>
      rw [andThen_of_error hwritten]
      exact ⟨drafted, hdrafted, hdraft⟩
    | ok done =>
      rw [andThen_of_ok hwritten, hdrafted] at h ⊢
      rw [publishDraft] at h ⊢
      split at h
      · cases h
      · exact ⟨drafted, rfl, hdraft⟩

/-- What is there right before the rename: the whole of the draft. -/
theorem exists_writing_before_rename (h : s.writeAll table = (.ok (), s')) :
    ∃ files, s.Writing files ∧
      files.readText s.draftPath = .ok (WhitelistTable.toText table) ∧
      publishDraft { s with files } = (.ok (), s') := by
  obtain ⟨housed, hhoused, hwriting⟩ := exists_writing_ensureParent s
  obtain ⟨s₁, hparent, h⟩ := andThen_eq_ok_iff.1 h
  obtain ⟨s₂, hdraft, hpublish⟩ := andThen_eq_ok_iff.1 h
  obtain rfl : s₁ = { s with files := housed } := by
    rw [hparent] at hhoused
    exact hhoused
  obtain ⟨drafted, hwrite, rfl⟩ := writeDraft_eq_ok_iff.1 hdraft
  refine ⟨drafted, hwriting.writes hwrite, ?_, hpublish⟩
  obtain ⟨draft, htakes, rfl⟩ := FileTree.writeText_eq_ok_iff.1 hwrite
  have hsame := FileTree.sameDirectories_insert_file htakes.ne_nil htakes.free
    (WhitelistTable.toText table).toUTF8
  refine FileTree.readText_of_resolve (htakes.of_sameDirectories hsame).resolve ?_
  rw [FileTree.node?_insert htakes.ne_nil, if_pos rfl]

/-! ## Calls that fail -/

theorem exists_writing_of_update {change : WhitelistTable → WhitelistTable}
    (h : (s.update change).1 = .error e) :
    ∃ files, (s.update change).2 = { s with files } ∧ s.Writing files := by
  rw [update] at h ⊢
  cases hread : s.readAll with
  | error fault => exact ⟨s.files, rfl, .start⟩
  | ok table =>
    rw [hread] at h
    exact exists_writing_of_writeAll h

theorem exists_writing_of_setup (h : s.setup.1 = .error e) :
    ∃ files, s.setup.2 = { s with files } ∧ s.Writing files := by
  rw [setup] at h ⊢
  split at h
  · exact ⟨s.files, rfl, .start⟩
  · exact ⟨s.files, rfl, .start⟩
  · exact exists_writing_of_writeAll h

theorem eq_error_of_map {α β : Type} {f : α → β} {x : Except Error α} (h : x.map f = .error e) :
    x = .error e := by
  cases x with
  | error fault =>
    rw [Except.map, Except.error.injEq] at h
    rw [h]
  | ok a => cases h

theorem exists_writing_of_perform {call : FileStoreCall} (h : (s.perform call).1 = .error e) :
    ∃ files, (s.perform call).2 = { s with files } ∧ s.Writing files := by
  cases call with
  | common call =>
    cases call with
    | setup => exact exists_writing_of_setup (eq_error_of_map h)
    | grant role r ps => exact exists_writing_of_update (eq_error_of_map h)
    | load role => exact ⟨s.files, rfl, .start⟩
  | saveRole role w => exact exists_writing_of_update (eq_error_of_map h)

/-- Whether or not a write succeeds, its path leads nowhere else later.  If it succeeds, the
directories are there. -/
theorem IsSteady.writeAll (h : s.IsSteady) (table : WhitelistTable) :
    (s.writeAll table).2.IsSteady := by
  cases hanswer : (s.writeAll table).1 with
  | error e =>
    obtain ⟨files, hafter, hwriting⟩ := exists_writing_of_writeAll hanswer
    rw [hafter]
    rcases h with hparent | ⟨hsound, hplain⟩
    · exact Or.inl (hwriting.keepsDirectories.isDirectory hparent)
    · exact Or.inr ⟨hwriting.isSound hsound, hplain⟩
  | ok done =>
    have hwrite : s.writeAll table = (.ok (), (s.writeAll table).2) := Prod.ext hanswer rfl
    obtain ⟨files, draft, place, -, haccepts, hafter⟩ := writeAll_eq_ok_iff.1 hwrite
    rw [hafter]
    exact Or.inl haccepts.published.parent

theorem IsSteady.update (h : s.IsSteady) (change : WhitelistTable → WhitelistTable) :
    (s.update change).2.IsSteady := by
  rw [FileStore.update]
  cases s.readAll with
  | error e => exact h
  | ok table => exact h.writeAll (change table)

theorem IsSteady.perform (h : s.IsSteady) (call : FileStoreCall) : (s.perform call).2.IsSteady := by
  cases call with
  | saveRole role w => exact h.update _
  | common call =>
    cases call with
    | grant role r ps => exact h.update _
    | load role => exact h
    | setup =>
      show s.setup.2.IsSteady
      rw [setup]
      split
      · exact h
      · exact h
      · exact h.writeAll ∅

/-- A call that fails leaves at the path of the document what was there, or that nothing can be
found there for the same fault, and every load answers what it would have answered before.  The
store is as steady then as it was, so that the same goes for the next call. -/
theorem perform_error (hsteady : s.IsSteady) (hapart : s.IsApart) {call : FileStoreCall}
    (h : (s.perform call).1 = .error e) :
    (s.perform call).2.files.find s.path = s.files.find s.path ∧
      (∀ role, (s.perform call).2.load role = s.load role) ∧ (s.perform call).2.IsSteady := by
  have hagain := hsteady.perform call
  obtain ⟨files, hafter, hwriting⟩ := exists_writing_of_perform h
  have hfind := hwriting.find_eq hsteady hapart
  rw [hafter] at hagain ⊢
  exact ⟨hfind, load_eq_of_find hfind, hagain⟩

namespace Drafts

/-- A store beside whose document there is a directory under the name of the draft. -/
def blocked : FileStore := ⟨⟨["roles.json"]⟩, FileTree.empty.insert ["roles.tmp"] .directory⟩

/-- A store whose path ends in a slash.  Nothing can be there but a directory. -/
def slashed : FileStore := ⟨⟨["roles.tmp", ""]⟩, .empty⟩

/-- A store whose document has the name that its draft has. -/
def own : FileStore := ⟨⟨["roles.tmp"]⟩, .empty⟩

def exempting : FileStoreCall := .common (.grant SampleRole.auditor .data [.select])

end Drafts

open Drafts SampleRole in
theorem perform_error_blocked :
    (blocked.perform exempting).1 = .error (.store (.unwritable "roles.tmp" .isDirectory)) ∧
      (blocked.perform exempting).2.load auditor = blocked.load auditor := by
  have hfails : (blocked.perform exempting).1 =
      .error (.store (.unwritable "roles.tmp" .isDirectory)) := by cbv
  have hsteady : blocked.IsSteady := Or.inl (by cbv)
  have hapart : blocked.IsApart := isApart_of_name? (by cbv) (by cbv) (by decide)
  exact ⟨hfails, (perform_error hsteady hapart hfails).2.1 auditor⟩

open Drafts SampleRole in
/-- A change that fails leaves its draft where the document would be looked for, and no load
succeeds then. -/
theorem failure_seen_slashed :
    slashed.load auditor = .ok ∅ ∧
      (slashed.perform exempting).1 =
        .error (.store (.notRenamed "roles.tmp" "roles.tmp/" .notDirectory)) ∧
      (slashed.perform exempting).2.load auditor =
        .error (.store (.unreadable "roles.tmp/" .notDirectory)) := by
  refine ⟨by cbv, by cbv, by cbv⟩

/-! ## Writes that succeed -/

theorem Accepts.isApart_iff {draft place : Place} (h : s.Accepts files draft place) :
    s.IsApart ↔ s.draftPath ≠ s.path := by
  obtain ⟨target, outer, hends, hlast, -⟩ := h.document.ends
  obtain ⟨target', outer', hends', hname', -⟩ := h.draft.ends
  have hpath : s.path = ⟨outer ++ [target.last]⟩ := congrArg FilePath.mk hends.segments
  have hdraft : s.draftPath = ⟨outer' ++ [target'.last]⟩ := congrArg FilePath.mk hends'.segments
  have hpathName : s.path.name? = some target.last := by
    rw [hpath]
    exact FilePath.name?_of_isName outer hlast
  have hdraftName : s.draftPath.name? = some target'.last := by
    rw [hdraft]
    exact FilePath.name?_of_isName outer' hname'
  constructor
  · intro hapart hsame
    refine hapart target.last hpathName ?_
    rw [hsame, hpathName]
  · intro hne name hname hsame
    rw [hpathName, Option.some.injEq] at hname
    rw [hdraftName, Option.some.injEq] at hsame
    obtain ⟨other, hother⟩ := FilePath.exists_withExtension_eq outer hlast "tmp"
    rw [← hpath] at hother
    have houter : outer' = outer := by
      rw [draftPath, hother] at hdraft
      exact (List.append_inj' (congrArg FilePath.segments hdraft) rfl).1.symm
    exact hne (by rw [hdraft, hpath, hsame, hname, houter])

theorem isSteady_of_writeAll (hsteady : s.files.isDirectory s.path.parent = true ∨
      s.files.IsSound ∧ FilePath.outside ∉ s.path.segments)
    (h : s.writeAll table = (.ok (), s')) : s.IsSteady := by
  refine hsteady.imp_right fun ⟨hsound, hout⟩ => ⟨hsound, ?_⟩
  obtain ⟨files, draft, place, -, haccepts, -⟩ := writeAll_eq_ok_iff.1 h
  exact FileTree.isPlain_of_resolve hout haccepts.document.resolve

/-- That the document is read as before once its directories are there need be assumed only where
the path goes out of a directory which is not there. -/
theorem settled_iff (hsteady : s.files.isDirectory s.path.parent = true ∨
      s.files.IsSound ∧ FilePath.outside ∉ s.path.segments) :
    s.Settled table ↔ s.readAll = .ok table ∧ s.IsWritable ∧ s.draftPath ≠ s.path := by
  constructor
  · intro h
    exact ⟨h.reads, h.writable, h.apart⟩
  · rintro ⟨hreads, hwritable, hne⟩
    have hempty : s.writeAll ∅ = (.ok (), (s.writeAll ∅).2) := Prod.ext hwritable rfl
    obtain ⟨_, draft, place, -, haccepts, -⟩ := writeAll_eq_ok_iff.1 hempty
    obtain ⟨files, hparent, hwriting⟩ := exists_writing_ensureParent s
    have hfind : files.find s.path = s.files.find s.path :=
      hwriting.find_eq (isSteady_of_writeAll hsteady hempty) (haccepts.isApart_iff.2 hne)
    refine { reads := hreads, housed := ?_, writable := hwritable, apart := hne }
    rw [hparent, readAll_eq_of_find hfind]
    exact hreads

/-- After the rename nothing is left at the place of the draft. -/
theorem Accepts.find_draftPath {draft place : Place} {text : String}
    (h : s.Accepts files draft place) (hne : draft ≠ place) :
    (FileStore.published files draft place text).find s.draftPath = .error .notFound := by
  have hfree : (files.insert draft (.file text.toUTF8)).node? draft ≠ some .directory := by
    rw [FileTree.node?_insert h.draft.ne_nil, if_pos rfl]
    simp
  have hnone : (FileStore.published files draft place text).node? draft = none := by
    rw [FileStore.published, FileTree.node?_insert h.document.ne_nil, if_neg hne.symm,
      FileTree.node?_erase hfree, if_pos rfl]
  rw [FileTree.find_of_resolve h.published.draft.resolve, hnone]

/-- A write that succeeds takes effect in its rename alone exactly if the draft has another name
than the document.  Only a document that is named `base.tmp` can have the name of its draft. -/
theorem atomic_iff (hsteady : s.files.isDirectory s.path.parent = true ∨
      s.files.IsSound ∧ FilePath.outside ∉ s.path.segments)
    (h : s.writeAll table = (.ok (), s')) :
    (s.Atomic table s' ↔ s.IsApart) ∧
      (s.IsApart ↔ ∀ base, base ≠ "" → s.path.name? = some (base ++ ".tmp") →
        base = "." ∧ s.path = s.path.trimmed) := by
  refine ⟨?_, isApart_iff⟩
  have hsteady' := isSteady_of_writeAll hsteady h
  obtain ⟨files, draft, place, -, haccepts, hafter⟩ := writeAll_eq_ok_iff.1 h
  have hreplaces : s'.files.readText s.path = .ok (WhitelistTable.toText table) := by
    rw [hafter]
    exact haccepts.readText
  rw [haccepts.isApart_iff]
  constructor
  · intro hatomic hsame
    -- the file that is at the path of the document is then at the path of the draft
    have hthere := FileTree.exists?_of_readText hreplaces
    have hclears := hatomic.clears
    rw [hsame] at hclears
    rw [FileTree.exists?, hclears] at hthere
    cases hthere
  · intro hne
    have hapart := haccepts.isApart_iff.2 hne
    refine ⟨fun _ hwriting => hwriting.find_eq hsteady' hapart, fun _ role hwriting =>
      load_eq_of_find (hwriting.find_eq hsteady' hapart) role, exists_writing_before_rename h,
      hreplaces, ?_⟩
    rw [hafter]
    exact haccepts.find_draftPath (haccepts.document.ne_of_withExtension haccepts.draft hne)

open Drafts in
theorem atomic_iff_fresh : Fresh.store.Atomic ∅ (Fresh.store.writeAll ∅).2 := by
  have hwrite : Fresh.store.writeAll ∅ = (.ok (), (Fresh.store.writeAll ∅).2) :=
    Prod.ext (by cbv) rfl
  have hsteady : Fresh.store.files.isDirectory Fresh.store.path.parent = true ∨
      Fresh.store.files.IsSound ∧ FilePath.outside ∉ Fresh.store.path.segments :=
    Or.inr ⟨FileTree.isSound_empty, by decide⟩
  have hapart : Fresh.store.IsApart := isApart_of_name? (by cbv) (by cbv) (by decide)
  exact (atomic_iff hsteady hwrite).1.2 hapart

open Drafts SampleRole in
/-- A document that is its own draft is there in part while it is written, and when the write has
succeeded there is a file under the name of the draft. -/
theorem partly_written_own :
    (own.writeAll ∅).1 = .ok () ∧ own.load auditor = .ok ∅ ∧
      (∃ files fault, own.Writing files ∧
        load { own with files } auditor = .error (.store (.unparsable "roles.tmp" fault))) ∧
      (own.writeAll ∅).2.files.exists? own.draftPath = .ok true := by
  have hpart : own.files.writeBytes own.draftPath "\x7b".toUTF8 =
      .ok (own.files.insert ["roles.tmp"] (.file "\x7b".toUTF8)) := by cbv
  exact ⟨by cbv, by cbv, ⟨_, _, .writes .start hpart, by cbv⟩, by cbv⟩

end AuditTrail.FileStore
