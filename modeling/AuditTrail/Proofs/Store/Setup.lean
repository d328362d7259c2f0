import AuditTrail.Proofs.Store.Refinement

/-!
# Preparing a store

A setup asks first whether there is anything at the path of the document.  What is there it reads,
and changes nothing.  Where nothing is it writes the empty document, which is what every load has
answered from before.  So a setup that succeeds is seen by no load, and a second one finds a
document that it can read (`setup_prepares`).
-/

namespace AuditTrail.FileStore

variable {s s' : FileStore} {table : WhitelistTable}

/-! ## What it leaves -/

/-- The two states give the same answer to every load, the second one has a document, and that is
the old one if there was one.  Another setup does nothing. -/
structure Prepares (s s' : FileStore) : Prop where
  loads : ∀ role, ∃ w, s.load role = .ok w ∧ s'.load role = .ok w
  keeps : s.files.exists? s.path = .ok true → s' = s
  creates : s.files.exists? s.path = .ok false →
    s'.path = s.path ∧ s'.files.readText s'.path = .ok (WhitelistTable.toText ∅)
  again : s'.setup = (.ok (), s')

theorem prepares_self (hthere : s.files.exists? s.path = .ok true) (hread : s.readAll = .ok table) :
    s.Prepares s where
  loads role := ⟨_, load_of_readAll hread role, load_of_readAll hread role⟩
  keeps _ := rfl
  creates habsent := by
    rw [hthere] at habsent
    cases habsent
  again := by
    rw [setup_of_there hthere, hread]
    rfl

theorem readAll_of_absent (h : s.files.exists? s.path = .ok false) : s.readAll = .ok ∅ := by
  rw [readAll, FileTree.readText_of_find (FileTree.exists?_eq_false_iff.1 h)]

theorem prepares_of_writeAll (habsent : s.files.exists? s.path = .ok false)
    (h : s.writeAll ∅ = (.ok (), s')) : s.Prepares s' := by
  obtain ⟨files, draft, place, -, haccepts, rfl⟩ := writeAll_eq_ok_iff.1 h
  have hwritten : (published files draft place (WhitelistTable.toText ∅)).readText s.path =
      .ok (WhitelistTable.toText ∅) := haccepts.readText
  have hread := readAll_of_readText (s := ⟨s.path, published files draft place _⟩) hwritten
    WhitelistTable.all_empty
  exact {
    loads := fun role => ⟨_, load_of_readAll (readAll_of_absent habsent) role,
      load_of_readAll hread role⟩
    keeps := fun hthere => by
      rw [habsent] at hthere
      cases hthere
    creates := fun _ => ⟨rfl, hwritten⟩
    again := (prepares_self (FileTree.exists?_of_readText hwritten) hread).again }

theorem prepares_of_setup (h : s.setup = (.ok (), s')) : s.Prepares s' := by
  rcases setup_eq_ok_iff.1 h with ⟨hthere, ⟨table, hread⟩, rfl⟩ | ⟨habsent, hwrite⟩
  · exact prepares_self hthere hread
  · exact prepares_of_writeAll habsent hwrite

/-! ## What it refuses -/

/-- The bytes of a file that is read as a table of whitelists. -/
def IsDocument (bytes : ByteArray) : Prop :=
  ∃ text, String.fromUTF8? bytes = some text ∧
    (Text.isAllBlank text = true ∨ ∃ table, WhitelistTable.ofText text = .ok table)

theorem exists_readAll_iff {bytes : ByteArray} (h : s.files.readBytes s.path = .ok bytes) :
    (∃ table, s.readAll = .ok table) ↔ IsDocument bytes := by
  rw [readAll, FileTree.readText_of_readBytes h, IsDocument]
  cases String.fromUTF8? bytes with
  | none => simp
  | some text =>
    cases hblank : Text.isAllBlank text with
    | true => simp [hblank]
    | false => cases hread : WhitelistTable.ofText text <;> simp [hblank, hread]

theorem setup_of_not_isDocument {bytes : ByteArray} (h : s.files.readBytes s.path = .ok bytes)
    (hnot : ¬ IsDocument bytes) : ∃ fault, s.setup = (.error (.store fault), s) := by
  rw [← exists_readAll_iff h] at hnot
  rw [setup_of_there (FileTree.exists?_of_readBytes h)]
  cases hread : s.readAll with
  | ok table => exact absurd ⟨table, hread⟩ hnot
  | error e =>
    obtain ⟨fault, rfl⟩ := exists_store_of_readAll hread
    exact ⟨fault, rfl⟩

/-- A setup that succeeds changes no answer and need not be repeated.  None succeeds on a file that
is no document, and that file is left as it is. -/
theorem setup_prepares (s : FileStore) :
    (∀ s', s.setup = (.ok (), s') → s.Prepares s') ∧
      ∀ bytes, s.files.readBytes s.path = .ok bytes → ¬ IsDocument bytes →
        ∃ fault, s.setup = (.error (.store fault), s) :=
  ⟨fun _ => prepares_of_setup, fun _ => setup_of_not_isDocument⟩

namespace Prepared

open Fresh (store)
open SampleRole (auditor)

/-- A store whose document has lost its end. -/
def torn : FileStore :=
  ⟨⟨["roles.json"]⟩, FileTree.empty.insert ["roles.json"] (.file "\x7b\"svc\": ".toUTF8)⟩

end Prepared

open Prepared Fresh SampleRole in
theorem setup_prepares_fresh :
    store.setup.1 = .ok () ∧ store.setup.2.setup = (.ok (), store.setup.2) ∧
      (∃ w, store.load auditor = .ok w ∧ store.setup.2.load auditor = .ok w) ∧
      ∃ fault, torn.setup = (.error (.store fault), torn) := by
  have hsetup : store.setup = (.ok (), store.setup.2) := Prod.ext (by cbv) rfl
  have hprepares := (setup_prepares store).1 _ hsetup
  have hbytes : torn.files.readBytes torn.path = .ok "\x7b\"svc\": ".toUTF8 := by cbv
  have hnot : ¬ IsDocument "\x7b\"svc\": ".toUTF8 := by
    rintro ⟨text, htext, hread⟩
    rw [FileTree.fromUTF8?_toUTF8, Option.some.injEq] at htext
    rw [← htext] at hread
    have hblank : Text.isAllBlank "\x7b\"svc\": " = false := by cbv
    have hfault : WhitelistTable.ofText "\x7b\"svc\": " = .error .malformed := by cbv
    simp [hblank, hfault] at hread
  exact ⟨congrArg Prod.fst hsetup, hprepares.again, hprepares.loads auditor,
    (setup_prepares torn).2 _ hbytes hnot⟩

end AuditTrail.FileStore
