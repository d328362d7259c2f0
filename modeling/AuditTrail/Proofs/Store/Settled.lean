import AuditTrail.Proofs.Files.Frame
import AuditTrail.Proofs.Store.Document
import AuditTrail.Store.Shared

/-!
# A document that is being written

While a writer creates the directory and writes its draft, the old document is read
(`Progress.readAll`), since the draft has a place of its own (`FileTree.Takes.ne_of_withExtension`).
Then the rename puts the new one there.  A store that is settled is so again after each change
(`Settled.change`).
-/

namespace AuditTrail

/-! ## Changes -/

/-- All resources that the change puts into the document have the property. -/
def StoreChange.All (P : Resource → Prop) : StoreChange → Prop
  | grant _ r _ => P r
  | saveRole _ w => w.All P

theorem StoreChange.All.on {P : Resource → Prop} {c : StoreChange} {t : WhitelistTable}
    (h : c.All P) (ht : WhitelistTable.All P t) : WhitelistTable.All P (c.on t) := by
  cases c with
  | grant role r ps => exact ht.granting h ps
  | saveRole role w => exact ht.saving h

namespace WriterStage

/-- The writer has the lock and has not ended its change. -/
def Works : WriterStage → Prop
  | locked | changed _ | housed _ | drafted => True
  | waiting | ended _ | returned _ => False

/-- The writer has put its document in place. -/
def hasPublished : WriterStage → Bool
  | ended _ | returned _ => true
  | _ => false

/-- How many steps the writer has left. -/
def left : WriterStage → Nat
  | waiting => 6
  | locked => 5
  | changed _ => 4
  | housed _ => 3
  | drafted => 2
  | ended _ => 1
  | returned _ => 0

theorem Works.not_apart {stage : WriterStage} (h : stage.Works) :
    ¬ (stage = waiting ∨ stage = returned (.ok ())) := by
  rintro (rfl | rfl) <;> exact h

theorem Works.hasPublished_eq {stage : WriterStage} (h : stage.Works) :
    stage.hasPublished = false := by
  cases stage with
  | waiting | locked | changed _ | housed _ | drafted => rfl
  | ended _ | returned _ => exact h.elim

end WriterStage

namespace FileStore

variable {s s' : FileStore} {c : StoreChange} {table : WhitelistTable}

theorem change_eq_update (s : FileStore) (c : StoreChange) : s.change c = s.update c.on := by
  cases c <;> rfl

/-- The document holds the table, whether or not its directory has been created, and another can be
written by way of a draft that has another path. -/
structure Settled (s : FileStore) (table : WhitelistTable) : Prop where
  reads : s.readAll = .ok table
  /-- This is an assumption only on a path that goes out of a directory which is not there, as
  `lists/../roles.json` does where there is no `lists`.  Once the directory is created, such a path
  can lead to another document, and a store where it does is not settled.  Of every other path this
  follows from the rest (`settled_iff`). -/
  housed : s.ensureParent.2.readAll = .ok table
  writable : s.IsWritable
  apart : s.draftPath ≠ s.path

theorem Settled.isNormal (h : s.Settled table) : WhitelistTable.IsNormal table :=
  isNormal_of_readAll h.reads

/-- Where a settled store puts what it writes. -/
theorem Settled.exists_accepts (h : s.Settled table) :
    ∃ files draft place, s.ensureParent = (.ok (), { s with files }) ∧
      s.Accepts files draft place ∧ draft ≠ place := by
  have hempty : s.writeAll ∅ = (.ok (), (s.writeAll ∅).2) := Prod.ext h.writable rfl
  obtain ⟨files, draft, place, hparent, haccepts, -⟩ := writeAll_eq_ok_iff.1 hempty
  refine ⟨files, draft, place, ensureParent_eq_ok_iff.2 ⟨files, hparent, rfl⟩, haccepts, ?_⟩
  exact haccepts.document.ne_of_withExtension haccepts.draft h.apart

theorem Settled.change (h : s.Settled table) (hc : c.All Resource.Made) :
    ∃ s', s.change c = (.ok (), s') ∧ s'.Settled (c.on table).reread := by
  obtain ⟨files', hwrite, hread, hwritable⟩ := writeAll_of_isWritable h.writable (c.on table)
  obtain ⟨files, draft, place, -, haccepts, hafter⟩ := writeAll_eq_ok_iff.1 hwrite
  have hfiles : files' = published files draft place _ := congrArg FileStore.files hafter
  have hreads : readAll { s with files := files' } = .ok (c.on table).reread :=
    readAll_eq_reread hread (hc.on h.isNormal.made)
  have hparent : files'.isDirectory s.path.parent = true := by
    rw [hfiles]
    exact haccepts.published.parent
  have hstays : ensureParent { s with files := files' } = (.ok (), { s with files := files' }) :=
    ensureParent_eq_ok_iff.2
      ⟨files', FileTree.createDirectories_of_isDirectory hparent, rfl⟩
  refine ⟨_, ?_, hreads, by rw [hstays]; exact hreads, hwritable, h.apart⟩
  rw [change_eq_update, update, h.reads]
  exact hwrite

/-! ## A change on its way -/

/-- The steps of a write, all of which succeed. -/
theorem Settled.exists_steps (h : s.Settled table) (new : WhitelistTable) :
    ∃ s₁ s₂ s₃, s.ensureParent = (.ok (), s₁) ∧
      s₁.writeDraft (WhitelistTable.toText new) = (.ok (), s₂) ∧
      s₂.publishDraft = (.ok (), s₃) ∧ s.writeAll new = (.ok (), s₃) := by
  obtain ⟨files, hwrite, -⟩ := writeAll_of_isWritable h.writable new
  obtain ⟨s₁, hparent, hrest⟩ := andThen_eq_ok_iff.1 hwrite
  obtain ⟨s₂, hdraft, hpublish⟩ := andThen_eq_ok_iff.1 hrest
  exact ⟨s₁, s₂, _, hparent, hdraft, hpublish, hwrite⟩

/-- How far a writer has come that found the store as `s` when it took the lock. -/
inductive Progress (s : FileStore) (c : StoreChange) : WriterStage → FileStore → Prop
  | locked : Progress s c .locked s
  | changed {table : WhitelistTable} (h : s.readAll = .ok table) :
      Progress s c (.changed (c.on table)) s
  | housed {table : WhitelistTable} {s₁ : FileStore} (h : s.readAll = .ok table)
      (hparent : s.ensureParent = (.ok (), s₁)) : Progress s c (.housed (c.on table)) s₁
  | drafted {table : WhitelistTable} {s₁ s₂ : FileStore} (h : s.readAll = .ok table)
      (hparent : s.ensureParent = (.ok (), s₁))
      (hdraft : s₁.writeDraft (WhitelistTable.toText (c.on table)) = (.ok (), s₂)) :
      Progress s c .drafted s₂
  | ended {s' : FileStore} (h : s.change c = (.ok (), s')) : Progress s c (.ended (.ok ())) s'

variable {stage : WriterStage} {s₁ s₂ : FileStore}

/-- A step of the writer that has the lock succeeds and brings it on. -/
theorem Progress.work (h : s.Settled table) (hp : s.Progress c stage s') (hworks : stage.Works) :
    s.Progress c (stage.work c s').1 (stage.work c s').2 ∧
      (stage.work c s').1.left + 1 = stage.left := by
  cases hp with
  | locked =>
    rw [WriterStage.work, h.reads]
    exact ⟨.changed h.reads, rfl⟩
  | @changed read hread =>
    obtain ⟨s₁, -, -, hparent, -⟩ := h.exists_steps (c.on read)
    rw [WriterStage.work, hparent]
    exact ⟨.housed hread hparent, rfl⟩
  | @housed read s₁ hread hparent =>
    obtain ⟨t₁, s₂, -, hparent', hdraft, -⟩ := h.exists_steps (c.on read)
    obtain rfl : s' = t₁ := congrArg Prod.snd (hparent.symm.trans hparent')
    rw [WriterStage.work, hdraft]
    exact ⟨.drafted hread hparent hdraft, rfl⟩
  | @drafted read s₁ s₂ hread hparent hdraft =>
    obtain ⟨t₁, t₂, s₃, hparent', hdraft', hpublish, hwrite⟩ := h.exists_steps (c.on read)
    obtain rfl : s₁ = t₁ := congrArg Prod.snd (hparent.symm.trans hparent')
    obtain rfl : s' = t₂ := congrArg Prod.snd (hdraft.symm.trans hdraft')
    have hchange : s.change c = (.ok (), s₃) := by
      rw [change_eq_update, update, hread]
      exact hwrite
    rw [WriterStage.work, hpublish]
    exact ⟨.ended hchange, rfl⟩
  | ended => exact hworks.elim

theorem Progress.ne_waiting (hp : s.Progress c stage s') : stage ≠ .waiting := by
  rintro rfl
  cases hp

/-! ## What is read meanwhile -/

theorem readAll_eq_of_readText (hpath : s'.path = s.path)
    (hread : s'.files.readText s.path = s.files.readText s.path) : s'.readAll = s.readAll := by
  rw [readAll, readAll, hpath, hread]

/-- The old document is read while the draft is beside it. -/
theorem Settled.readAll_of_writeDraft {text : String} (h : s.Settled table)
    (hparent : s.ensureParent = (.ok (), s₁)) (hdraft : s₁.writeDraft text = (.ok (), s₂)) :
    s₂.readAll = .ok table := by
  obtain ⟨files, draft, place, hparent', haccepts, hne⟩ := h.exists_accepts
  obtain rfl : s₁ = { s with files } := congrArg Prod.snd (hparent.symm.trans hparent')
  obtain ⟨drafted, hwrite, rfl⟩ := writeDraft_eq_ok_iff.1 hdraft
  obtain ⟨other, htakes, rfl⟩ := FileTree.writeText_eq_ok_iff.1 hwrite
  obtain rfl : other = draft := htakes.unique haccepts.draft
  have hhoused := h.housed
  rw [hparent] at hhoused
  rw [← hhoused]
  exact readAll_eq_of_readText rfl (FileTree.readText_insert_file haccepts.document.resolve
    htakes.ne_nil htakes.free hne text.toUTF8)

theorem Progress.readAll (h : s.Settled table) (hc : c.All Resource.Made)
    (hp : s.Progress c stage s') :
    s'.readAll = .ok (if stage.hasPublished then (c.on table).reread else table) := by
  cases hp with
  | locked | changed => exact h.reads
  | housed _ hparent =>
    have hhoused := h.housed
    rw [hparent] at hhoused
    exact hhoused
  | drafted _ hparent hdraft => exact h.readAll_of_writeDraft hparent hdraft
  | ended hchange =>
    obtain ⟨t, hchange', hafter⟩ := h.change hc
    obtain rfl : s' = t := congrArg Prod.snd (hchange.symm.trans hchange')
    exact hafter.reads

/-! ## One change after another -/

def changeAll (s : FileStore) (changes : List StoreChange) : FileStore :=
  changes.foldl (fun s c => (s.change c).2) s

theorem changeAll_append (s : FileStore) (changes more : List StoreChange) :
    s.changeAll (changes ++ more) = (s.changeAll changes).changeAll more := List.foldl_append

end FileStore

/-- The table that the document holds after the changes, each of which reads what the one before it
has written. -/
def WhitelistTable.written (t : WhitelistTable) (changes : List StoreChange) : WhitelistTable :=
  changes.foldl (fun t c => (c.on t).reread) t

theorem WhitelistTable.written_append (t : WhitelistTable) (changes more : List StoreChange) :
    written t (changes ++ more) = written (written t changes) more := List.foldl_append

theorem WhitelistTable.written_of_isNormal {t : WhitelistTable} {changes : List StoreChange}
    (ht : IsNormal t) (hchanges : ∀ c ∈ changes, c.All Resource.IsNormal) :
    written t changes = changes.foldl (fun t c => c.on t) t := by
  induction changes generalizing t with
  | nil => rfl
  | cons c changes ih =>
    rw [List.forall_mem_cons] at hchanges
    have hon : IsNormal (c.on t) := hchanges.1.on ht
    rw [written, List.foldl_cons, List.foldl_cons, hon.reread_eq]
    exact ih hon hchanges.2

theorem FileStore.Settled.changeAll {s : FileStore} {table : WhitelistTable}
    {changes : List StoreChange} (h : s.Settled table)
    (hchanges : ∀ c ∈ changes, c.All Resource.Made) :
    (s.changeAll changes).Settled (table.written changes) := by
  induction changes generalizing s table with
  | nil => exact h
  | cons c changes ih =>
    rw [List.forall_mem_cons] at hchanges
    obtain ⟨s', hchange, hafter⟩ := h.change hchanges.1
    rw [FileStore.changeAll, List.foldl_cons, hchange]
    exact ih hafter hchanges.2

end AuditTrail
