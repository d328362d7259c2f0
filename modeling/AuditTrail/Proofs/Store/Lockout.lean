import AuditTrail.Proofs.Store.Granting
import AuditTrail.Proofs.Store.Setup

/-!
# A store never locks itself out

A load reads the whole document, so a single resource in it that has no segment would keep every
role from being loaded, and every later setup and grant from being made (`isReadable_writeAll_iff`).
No call puts one there: each resource that a program can come by has a segment, whatever else is
wrong with its path, and so a call on a document that is read leaves one that is read
(`IsReadable.perform_cases`).  Only the file system can stop the calls, by refusing to write, and it
stops none where a document can be written to begin with (`stays_readable`).
-/

namespace AuditTrail

/-- All resources that are handed over with the call have the property. -/
def FileStoreCall.All (P : Resource → Prop) : FileStoreCall → Prop
  | common (.grant _ r _) => P r
  | common .setup | common (.load _) => True
  | saveRole _ w => w.All P

theorem Resource.Made.exists_parse {r : Resource} (h : r.Made) : ∃ q, parse r.path = .ok q :=
  ⟨r.normal, parse_eq_ok_iff.2 h.parse?_path⟩

namespace FileStore

variable {s s' : FileStore} {table : WhitelistTable} {call : FileStoreCall}
  {calls : List FileStoreCall}

/-! ## Documents that are read -/

/-- No document is there, or one that can be read. -/
def IsReadable (s : FileStore) : Prop :=
  s.files.exists? s.path = .ok false ∨
    ∃ bytes, s.files.readBytes s.path = .ok bytes ∧ IsDocument bytes

theorem isReadable_iff : s.IsReadable ↔ ∃ table, s.readAll = .ok table := by
  constructor
  · rintro (habsent | ⟨bytes, hbytes, hdocument⟩)
    · exact ⟨∅, readAll_of_absent habsent⟩
    · exact (exists_readAll_iff hbytes).2 hdocument
  · rintro ⟨table, hread⟩
    have hread' := hread
    rw [readAll] at hread'
    split at hread'
    · rename_i habsent
      exact .inl (FileTree.exists?_of_readText_notFound habsent)
    · cases hread'
    · rename_i text htext
      obtain ⟨bytes, hbytes⟩ : ∃ bytes, s.files.readBytes s.path = .ok bytes := by
        rw [FileTree.readText] at htext
        obtain ⟨bytes, hbytes, -⟩ := bind_eq_ok_iff.1 htext
        exact ⟨bytes, hbytes⟩
      exact .inr ⟨bytes, hbytes, (exists_readAll_iff hbytes).1 ⟨table, hread⟩⟩

theorem IsReadable.load (h : s.IsReadable) (role : Role) :
    ∃ w : Whitelist, s.load role = .ok w ∧ w.IsNormal := by
  obtain ⟨table, hread⟩ := isReadable_iff.1 h
  exact ⟨_, load_of_readAll hread role, WhitelistTable.All.getD (isNormal_of_readAll hread) role⟩

/-- What has been written can be read exactly if every resource in it has a segment. -/
theorem isReadable_writeAll_iff (h : s.writeAll table = (.ok (), s')) :
    s'.IsReadable ↔ WhitelistTable.All Resource.HasSegment table := by
  obtain ⟨files, draft, place, -, haccepts, rfl⟩ := writeAll_eq_ok_iff.1 h
  have htext : (published files draft place (WhitelistTable.toText table)).readText s.path =
      .ok (WhitelistTable.toText table) := haccepts.readText
  rw [isReadable_iff, ← WhitelistTable.exists_ofText_toText_iff, readAll, htext]
  simp only [WhitelistTable.isAllBlank_toText, Bool.false_eq_true, if_false]
  cases WhitelistTable.ofText (WhitelistTable.toText table) <;> simp

/-! ## One call -/

/-- A call answers and changes nothing, or comes to a single write. -/
theorem IsReadable.perform_cases (h : s.IsReadable) (hcall : call.All Resource.Made) :
    (∃ answer, s.perform call = (.ok answer, s)) ∨
      ∃ table, WhitelistTable.All Resource.Made table ∧
        s.perform call = ((s.writeAll table).1.map fun _ => none, (s.writeAll table).2) := by
  obtain ⟨table, hread⟩ := isReadable_iff.1 h
  have hmade : WhitelistTable.All Resource.Made table := (isNormal_of_readAll hread).made
  cases call with
  | common call =>
    cases call with
    | setup =>
      rcases h with habsent | ⟨bytes, hbytes, -⟩
      · refine .inr ⟨∅, WhitelistTable.all_empty, ?_⟩
        rw [perform, setup_of_absent habsent]
      · refine .inl ⟨none, ?_⟩
        rw [perform, setup_of_there (FileTree.exists?_of_readBytes hbytes), hread]
        rfl
    | grant role r ps =>
      refine .inr ⟨granting role r ps table, hmade.granting hcall ps, ?_⟩
      rw [perform, grant, update, hread]
    | load role =>
      refine .inl ⟨some (table.getD role ∅), ?_⟩
      rw [perform, load_of_readAll hread]
      rfl
  | saveRole role w =>
    refine .inr ⟨saving role w table, hmade.saving hcall, ?_⟩
    rw [perform, saveRole, update, hread]

theorem IsReadable.perform (h : s.IsReadable) (hcall : call.All Resource.Made)
    (hfiles : ∀ e, (s.perform call).1 = .error e → ¬ e.RefusesWrite) :
    (∃ answer, (s.perform call).1 = .ok answer) ∧ (s.perform call).2.IsReadable := by
  rcases h.perform_cases hcall with ⟨answer, hsame⟩ | ⟨table, htable, hwrite⟩
  · rw [hsame]
    exact ⟨⟨answer, rfl⟩, h⟩
  · rw [hwrite] at hfiles ⊢
    cases hanswer : (s.writeAll table).1 with
    | error e =>
      refine absurd (refusesWrite_of_writeAll hanswer) (hfiles e ?_)
      rw [hanswer]
      rfl
    | ok done =>
      have hwritten : s.writeAll table = (.ok (), (s.writeAll table).2) := Prod.ext hanswer rfl
      exact ⟨⟨none, rfl⟩, (isReadable_writeAll_iff hwritten).2 htable.hasSegment⟩

theorem IsReadable.perform_of_isWritable (h : s.IsReadable) (hwritable : s.IsWritable)
    (hcall : call.All Resource.Made) :
    (∃ answer, (s.perform call).1 = .ok answer) ∧ (s.perform call).2.IsWritable := by
  rcases h.perform_cases hcall with ⟨answer, hsame⟩ | ⟨table, -, hwrite⟩
  · rw [hsame]
    exact ⟨⟨answer, rfl⟩, hwritable⟩
  · obtain ⟨files, hwritten, -, hagain⟩ := writeAll_of_isWritable hwritable table
    rw [hwrite, hwritten]
    exact ⟨⟨none, rfl⟩, hagain⟩

/-! ## Runs -/

/-- The store when the calls have been made. -/
def after (s : FileStore) (calls : List FileStoreCall) : FileStore :=
  calls.foldl (fun s call => (s.perform call).2) s

/-- Every call succeeds.  Before the first and after each of them every role can be loaded, and what
is loaded can be saved again. -/
structure StaysReadable (s : FileStore) (calls : List FileStoreCall) : Prop where
  answers : ∀ reply ∈ s.replies calls, ∃ answer, reply = .ok answer
  loads : ∀ n role, ∃ w : Whitelist, (s.after (calls.take n)).load role = .ok w ∧ w.IsNormal

theorem IsReadable.staysReadable (h : s.IsReadable)
    (hcalls : ∀ call ∈ calls, call.All Resource.Made)
    (hfiles : ∀ e, .error e ∈ s.replies calls → ¬ e.RefusesWrite) : s.StaysReadable calls := by
  induction calls generalizing s with
  | nil =>
    refine { answers := List.forall_mem_nil _, loads := fun n role => ?_ }
    rw [List.take_nil]
    exact h.load role
  | cons call calls ih =>
    rw [List.forall_mem_cons] at hcalls
    have hfirst (e : Error) (he : (s.perform call).1 = .error e) : ¬ e.RefusesWrite := by
      apply hfiles e
      rw [replies, ← he]
      exact List.mem_cons_self
    obtain ⟨hanswer, hafter⟩ := h.perform hcalls.1 hfirst
    have hrest := ih hafter hcalls.2 fun e he => hfiles e (List.mem_cons_of_mem _ he)
    refine ⟨List.forall_mem_cons.2 ⟨hanswer, hrest.answers⟩, fun n role => ?_⟩
    cases n with
    | zero => exact h.load role
    | succ n => exact hrest.loads n role

/-- Where a document can be written to begin with, no later write is refused. -/
theorem IsReadable.not_mem_replies (h : s.IsReadable) (hwritable : s.IsWritable)
    (hcalls : ∀ call ∈ calls, call.All Resource.Made) (e : Error) : .error e ∉ s.replies calls := by
  induction calls generalizing s with
  | nil => exact List.not_mem_nil
  | cons call calls ih =>
    rw [List.forall_mem_cons] at hcalls
    obtain ⟨⟨answer, hanswer⟩, hagain⟩ := h.perform_of_isWritable hwritable hcalls.1
    have hfirst (e : Error) (he : (s.perform call).1 = .error e) : ¬ e.RefusesWrite := by
      rw [hanswer] at he
      cases he
    obtain ⟨-, hafter⟩ := h.perform hcalls.1 hfirst
    rw [replies, hanswer, List.mem_cons, not_or]
    exact ⟨by simp, ih hafter hagain hcalls.2⟩

/-- What is written can be read exactly if every resource in it has a segment, as each has that a
program can come by.  So a store whose document is absent, blank or valid stays readable through any
calls, unless the file system refuses to write, and it refuses nothing where a document can be
written to begin with. -/
theorem stays_readable (h : s.IsReadable) (hcalls : ∀ call ∈ calls, call.All Resource.Made) :
    (∀ r : Resource, r.Made → r.HasSegment ∧ ∃ q, Resource.parse r.path = .ok q) ∧
      (∀ table s', s.writeAll table = (.ok (), s') →
        (s'.IsReadable ↔ WhitelistTable.All Resource.HasSegment table)) ∧
      ((∀ e, .error e ∈ s.replies calls → ¬ e.RefusesWrite) → s.StaysReadable calls) ∧
      (s.IsWritable → s.StaysReadable calls) := by
  refine ⟨fun r hr => ⟨hr.hasSegment, hr.exists_parse⟩, fun _ _ => isReadable_writeAll_iff,
    h.staysReadable hcalls, fun hwritable => h.staysReadable hcalls fun e he => ?_⟩
  exact absurd he (h.not_mem_replies hwritable hcalls e)

end FileStore

namespace Reopened

open SampleRole (nameless auditor)

/-- A document that names a resource as no program writes it. -/
def document : String := "\x7b\"svc\": \x7b\"//data//\": [\"SELECT\"]\x7d\x7d"

def store : FileStore :=
  ⟨⟨["roles.json"]⟩, FileTree.empty.insert ["roles.json"] (.file document.toUTF8)⟩

/-- What is around a table that has no name, in a keyspace that is named by a separator. -/
def around : Resource := ⟨"data//"⟩

def calls : List FileStoreCall :=
  [.common .setup, .common (.grant nameless Granted.unnamed []),
    .common (.grant auditor (.table "/" "") [.select]),
    .saveRole nameless (Whitelist.empty.grant around [.drop]),
    .common (.grant auditor (.role "//") [.drop])]

theorem made_around : around.Made :=
  .parent (.table "/" "") (show (Resource.table "/" "").parent? = some around by decide +kernel)

theorem made_calls : ∀ call ∈ calls, call.All Resource.Made := by
  simp only [calls, List.forall_mem_cons]
  exact ⟨trivial, .keyspace "", .table "/" "", Whitelist.all_empty.grant made_around _, .role "//",
    by simp⟩

theorem isReadable_store : store.IsReadable := by
  have hbytes : store.files.readBytes store.path = .ok document.toUTF8 := by cbv
  have hread : WhitelistTable.ofText document =
      .ok ((∅ : WhitelistTable).insert ⟨"svc"⟩ (Whitelist.empty.grant .data [.select])) := by
    decide +kernel
  exact .inr ⟨_, hbytes, document, FileTree.fromUTF8?_toUTF8 document, .inr ⟨_, hread⟩⟩

theorem isWritable_store : store.IsWritable := show (store.writeAll ∅).1 = .ok () by cbv

/-- A whitelist of a resource that no program can come by. -/
def rootless : Whitelist := Whitelist.empty.grant ⟨"/"⟩ [.select]

theorem not_all_rootless :
    ¬ WhitelistTable.All Resource.HasSegment ((∅ : WhitelistTable).insert auditor rootless) := by
  intro h
  have hentry : rootless.permissions? ⟨"/"⟩ = some (PermissionSet.ofList [.select]) := by
    decide +kernel
  have hnone : Resource.segments (Resource.chars ⟨"/"⟩) = [] := by decide +kernel
  exact h auditor rootless Std.ExtTreeMap.getElem?_insert_self ⟨"/"⟩ _ hentry hnone

end Reopened

open Reopened SampleRole in
theorem FileStore.stays_readable_reopened :
    store.StaysReadable calls ∧
      (∃ w : Whitelist, (store.after calls).load ⟨"svc"⟩ = .ok w) ∧
      ∃ s', store.writeAll ((∅ : WhitelistTable).insert auditor rootless) = (.ok (), s') ∧
        ¬ s'.IsReadable := by
  obtain ⟨-, hexact, -, hruns⟩ := FileStore.stays_readable isReadable_store made_calls
  have hstays := hruns isWritable_store
  obtain ⟨w, hw, -⟩ := hstays.loads calls.length ⟨"svc"⟩
  rw [List.take_length] at hw
  obtain ⟨files, hwrite, -⟩ := FileStore.writeAll_of_isWritable isWritable_store
    ((∅ : WhitelistTable).insert auditor rootless)
  refine ⟨hstays, ⟨w, hw⟩, _, hwrite, ?_⟩
  rw [hexact _ _ hwrite]
  exact not_all_rootless

end AuditTrail
