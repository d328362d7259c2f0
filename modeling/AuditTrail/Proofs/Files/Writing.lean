import AuditTrail.Files

/-!
# Putting documents into a tree

Whether a path can be followed, and whether a file can be put at its end, depends on the directories
of the tree and not on its files.  So what has been possible once stays possible as long as only
files are written and renamed (`SameDirectories`).
-/

namespace AuditTrail

theorem bind_eq_ok_iff {ε α β : Type} {x : Except ε α} {f : α → Except ε β} {b : β} :
    (x >>= f) = .ok b ↔ ∃ a, x = .ok a ∧ f a = .ok b := by
  cases x with
  | error e =>
    constructor
    · intro h
      cases h
    · rintro ⟨a, h, -⟩
      cases h
  | ok a =>
    constructor
    · exact fun h => ⟨a, rfl, h⟩
    · rintro ⟨a', h, hb⟩
      cases h
      exact hb

namespace FileTree

variable {t t' : FileTree} {p : FilePath} {place q : Place} {node : FileNode}

theorem node?_insert (h : place ≠ []) :
    (t.insert place node).node? q = if place = q then some node else t.node? q := by
  simp only [node?, insert, Std.ExtTreeMap.getElem?_insert, Std.compare_eq_iff_eq]
  by_cases hq : q = []
  · subst hq
    simp [h]
  · simp only [if_neg hq]

theorem node?_erase (hplace : t.node? place ≠ some .directory) :
    node? ⟨t.nodes.erase place⟩ q = if place = q then none else t.node? q := by
  have hne : place ≠ [] := by
    rintro rfl
    exact hplace rfl
  simp only [node?, Std.ExtTreeMap.getElem?_erase, Std.compare_eq_iff_eq]
  by_cases hq : q = []
  · subst hq
    simp [hne]
  · simp only [if_neg hq]

/-! ## Directories -/

def KeepsDirectories (t t' : FileTree) : Prop :=
  ∀ place, t.node? place = some .directory → t'.node? place = some .directory

def SameDirectories (t t' : FileTree) : Prop :=
  ∀ place, t.node? place = some .directory ↔ t'.node? place = some .directory

theorem SameDirectories.keeps (h : SameDirectories t t') : KeepsDirectories t t' :=
  fun place => (h place).1

theorem SameDirectories.symm (h : SameDirectories t t') : SameDirectories t' t :=
  fun place => (h place).symm

theorem SameDirectories.trans {t'' : FileTree} (h : SameDirectories t t')
    (h' : SameDirectories t' t'') : SameDirectories t t'' :=
  fun place => (h place).trans (h' place)

theorem sameDirectories_insert_file (hne : place ≠ []) (h : t.node? place ≠ some .directory)
    (bytes : ByteArray) : SameDirectories t (t.insert place (.file bytes)) := by
  intro q
  rw [node?_insert hne]
  split
  · rename_i hq
    rw [← hq]
    simp [h]
  · exact Iff.rfl

theorem sameDirectories_erase (h : t.node? place ≠ some .directory) :
    SameDirectories t ⟨t.nodes.erase place⟩ := by
  intro q
  rw [node?_erase h]
  split
  · rename_i hq
    rw [← hq]
    simp [h]
  · exact Iff.rfl

/-! ## Following a path -/

theorem enter_eq_ok_iff : t.enter place = .ok () ↔ t.node? place = some .directory := by
  rw [enter]
  split <;> simp_all

theorem follow_eq_ok_iff {segment : String} :
    t.follow place segment = .ok q ↔
      t.node? place = some .directory ∧
        (if FilePath.isIdle segment then .ok place
          else if segment = FilePath.outside then .ok place.dropLast
          else placeIn place segment) = .ok q := by
  rw [FileTree.follow, bind_eq_ok_iff, ← enter_eq_ok_iff]
  exact ⟨fun ⟨_, henter, hq⟩ => ⟨henter, hq⟩, fun ⟨henter, hq⟩ => ⟨(), henter, hq⟩⟩

theorem KeepsDirectories.follow {segment : String} (h : KeepsDirectories t t')
    (hq : t.follow place segment = .ok q) : t'.follow place segment = .ok q := by
  rw [follow_eq_ok_iff] at hq ⊢
  exact ⟨h place hq.1, hq.2⟩

theorem KeepsDirectories.foldlM_follow {segments : List String} (h : KeepsDirectories t t')
    (hq : segments.foldlM t.follow place = .ok q) : segments.foldlM t'.follow place = .ok q := by
  induction segments generalizing place with
  | nil => exact hq
  | cons segment segments ih =>
    rw [List.foldlM_cons, bind_eq_ok_iff] at hq ⊢
    obtain ⟨next, hnext, hq⟩ := hq
    exact ⟨next, h.follow hnext, ih hq⟩

theorem resolve_eq_ok_iff :
    t.resolve p = .ok place ↔ p.hasZero = false ∧ p.segments.foldlM t.follow [] = .ok place := by
  rw [FileTree.resolve]
  cases p.hasZero <;> simp

theorem KeepsDirectories.resolve (h : KeepsDirectories t t') (hq : t.resolve p = .ok q) :
    t'.resolve p = .ok q := by
  rw [resolve_eq_ok_iff] at hq ⊢
  exact ⟨hq.1, h.foldlM_follow hq.2⟩

/-! ## The end of a path -/

/-- What a target says of its path, if it ends in a name: the segments before the name, which lead
to the directory, and the empty ones after it, which are what the slashes at the end leave. -/
structure Ends (t : FileTree) (p : FilePath) (target : Target) (outer blanks : List String) :
    Prop where
  segments : p.segments = outer ++ target.last :: blanks
  blank : ∀ s ∈ blanks, s = ""
  slashed : target.slashed = !blanks.isEmpty
  whole : p.hasZero = false
  outer : outer.foldlM t.follow [] = .ok target.directory
  directory : t.node? target.directory = some .directory

/-- The segments of a path without the empty ones at its end. -/
def stripped (p : FilePath) : List String := (p.segments.reverse.dropWhile (·.isEmpty)).reverse

theorem exists_segments_eq_stripped_append (p : FilePath) :
    ∃ blanks, p.segments = stripped p ++ blanks ∧ ∀ s ∈ blanks, s = "" := by
  refine ⟨(p.segments.reverse.takeWhile (·.isEmpty)).reverse, ?_, fun s hs => ?_⟩
  · rw [stripped, ← List.reverse_append, List.takeWhile_append_dropWhile, List.reverse_reverse]
  · have hempty := List.all_eq_true.1 List.all_takeWhile s (List.mem_reverse.1 hs)
    exact String.isEmpty_iff.1 hempty

theorem target_eq_ok_iff {target : Target} :
    t.target p = .ok target ↔
      p.hasZero = false ∧ t.resolve ⟨(stripped p).dropLast⟩ = .ok target.directory ∧
        t.node? target.directory = some .directory ∧
        target.last = (stripped p).getLast?.getD "." ∧
        target.slashed = decide ((stripped p).length < p.segments.length) := by
  rw [FileTree.target]
  cases hzero : p.hasZero with
  | true => simp
  | false =>
    simp only [stripped, Bool.false_eq_true, if_false, bind_eq_ok_iff, true_and]
    constructor
    · rintro ⟨directory, hdirectory, ⟨⟩, henter, htarget⟩
      rw [Except.ok.injEq] at htarget
      subst htarget
      exact ⟨hdirectory, enter_eq_ok_iff.1 henter, rfl, rfl⟩
    · obtain ⟨directory, last, slashed⟩ := target
      rintro ⟨hdirectory, hnode, rfl, rfl⟩
      exact ⟨directory, hdirectory, (), enter_eq_ok_iff.2 hnode, rfl⟩

theorem ends_of_target {target : Target} (h : t.target p = .ok target)
    (hname : FilePath.isName target.last = true) :
    ∃ outer blanks, Ends t p target outer blanks := by
  obtain ⟨hwhole, hdirectory, hnode, hlast, hslashed⟩ := target_eq_ok_iff.1 h
  obtain ⟨blanks, hsegments, hblank⟩ := exists_segments_eq_stripped_append p
  have hend : stripped p = (stripped p).dropLast ++ [target.last] := by
    cases hs : (stripped p).getLast? with
    | none =>
      rw [hs, Option.getD_none] at hlast
      rw [hlast] at hname
      exact absurd hname (by decide)
    | some last =>
      rw [hs, Option.getD_some] at hlast
      obtain ⟨outer, houter⟩ := List.getLast?_eq_some_iff.1 hs
      rw [hlast, houter, List.dropLast_concat]
  refine ⟨(stripped p).dropLast, blanks, ?_, hblank, ?_, hwhole,
    (resolve_eq_ok_iff.1 hdirectory).2, hnode⟩
  · have hwritten : p.segments = ((stripped p).dropLast ++ [target.last]) ++ blanks := by
      rw [← hend]
      exact hsegments
    rw [hwritten, List.append_assoc, List.singleton_append]
  · rw [hslashed, hsegments]
    cases blanks <;> simp

theorem KeepsDirectories.target {target : Target} (h : KeepsDirectories t t')
    (htarget : t.target p = .ok target) : t'.target p = .ok target := by
  rw [target_eq_ok_iff] at htarget ⊢
  exact ⟨htarget.1, h.resolve htarget.2.1, h _ htarget.2.2.1, htarget.2.2.2⟩

theorem placeIn_eq_ok {directory : Place} {name : String} (h : placeIn directory name = .ok place) :
    place = directory ++ [name] := by
  rw [placeIn] at h
  split at h
  · cases h
  · rw [Except.ok.injEq] at h
    exact h.symm

theorem placeIn_ne_nil {directory : Place} {name : String}
    (h : placeIn directory name = .ok place) : place ≠ [] := by
  rw [placeIn_eq_ok h]
  simp

theorem follow_name {directory : Place} {name : String} (h : t.node? directory = some .directory)
    (hname : FilePath.isName name = true) (hplace : placeIn directory name = .ok place) :
    t.follow directory name = .ok place := by
  rw [FilePath.isName, Bool.and_eq_true, Bool.not_eq_true', bne_iff_ne] at hname
  rw [follow_eq_ok_iff, hname.1]
  exact ⟨h, by rw [if_neg (by simp), if_neg hname.2]; exact hplace⟩

/-- The path as far as its name leads to the place that the name takes. -/
theorem Ends.foldlM_append {target : Target} {outer blanks more : List String}
    (h : Ends t p target outer blanks) (hname : FilePath.isName target.last = true)
    (hplace : placeIn target.directory target.last = .ok place) :
    (outer ++ target.last :: more).foldlM t.follow [] = more.foldlM t.follow place := by
  rw [List.foldlM_append, h.outer]
  show (target.last :: more).foldlM t.follow target.directory = _
  rw [List.foldlM_cons, follow_name h.directory hname hplace]
  rfl

/-! ## Where a file can be put -/

/-- A file can be put at the end of the path, and its place is this one. -/
structure Takes (t : FileTree) (p : FilePath) (place : Place) : Prop where
  target : ∃ target, t.target p = .ok target ∧ FilePath.isName target.last = true ∧
    target.slashed = false ∧ placeIn target.directory target.last = .ok place
  free : t.node? place ≠ some .directory

theorem Takes.ne_nil (h : t.Takes p place) : place ≠ [] := by
  obtain ⟨target, -, -, -, hplace⟩ := h.target
  exact placeIn_ne_nil hplace

theorem Takes.of_sameDirectories (hsame : SameDirectories t t') (h : t.Takes p place) :
    t'.Takes p place := by
  obtain ⟨target, htarget, hrest⟩ := h.target
  exact ⟨⟨target, hsame.keeps.target htarget, hrest⟩, fun hnode => h.free ((hsame place).2 hnode)⟩

theorem Takes.ends (h : t.Takes p place) :
    ∃ target outer, Ends t p target outer [] ∧ FilePath.isName target.last = true ∧
      placeIn target.directory target.last = .ok place := by
  obtain ⟨target, htarget, hname, hslashed, hplace⟩ := h.target
  obtain ⟨outer, blanks, hends⟩ := ends_of_target htarget hname
  have hblanks : blanks = [] := by
    rw [hends.slashed] at hslashed
    simpa using hslashed
  rw [hblanks] at hends
  exact ⟨target, outer, hends, hname, hplace⟩

theorem Takes.resolve (h : t.Takes p place) : t.resolve p = .ok place := by
  obtain ⟨target, outer, hends, hname, hplace⟩ := h.ends
  rw [resolve_eq_ok_iff, hends.segments, hends.foldlM_append hname hplace]
  exact ⟨hends.whole, rfl⟩

theorem Takes.unique (h : t.Takes p place) (h' : t.Takes p q) : place = q := by
  have hresolve := h.resolve
  rw [h'.resolve, Except.ok.injEq] at hresolve
  exact hresolve.symm

theorem writeBytes_eq_ok_iff {bytes : ByteArray} :
    t.writeBytes p bytes = .ok t' ↔
      ∃ place, t.Takes p place ∧ t' = t.insert place (.file bytes) := by
  rw [writeBytes, bind_eq_ok_iff]
  constructor
  · rintro ⟨target, htarget, h⟩
    split at h
    · cases h
    · rename_i hcan
      rw [Bool.or_eq_true, not_or, Bool.not_eq_true, Bool.not_eq_true', Bool.not_eq_false] at hcan
      obtain ⟨place, hplace, h⟩ := bind_eq_ok_iff.1 h
      split at h
      · cases h
      · rename_i hfree
        rw [Except.ok.injEq] at h
        exact ⟨place, ⟨⟨target, htarget, hcan.2, hcan.1, hplace⟩, hfree⟩, h.symm⟩
  · rintro ⟨place, ⟨⟨target, htarget, hname, hslashed, hplace⟩, hfree⟩, rfl⟩
    refine ⟨target, htarget, ?_⟩
    rw [hslashed, hname, if_neg (by simp), bind_eq_ok_iff]
    refine ⟨place, hplace, ?_⟩
    split
    · rename_i hnode
      exact absurd hnode hfree
    · rfl

theorem writeText_eq_ok_iff {text : String} :
    t.writeText p text = .ok t' ↔
      ∃ place, t.Takes p place ∧ t' = t.insert place (.file text.toUTF8) :=
  writeBytes_eq_ok_iff

theorem rename_eq_ok_iff {source target : FilePath} :
    t.rename source target = .ok t' ↔
      ∃ origin place bytes, t.Takes source origin ∧ t.Takes target place ∧
        t.node? origin = some (.file bytes) ∧
        t' = insert ⟨t.nodes.erase origin⟩ place (.file bytes) := by
  rw [rename, bind_eq_ok_iff]
  constructor
  · rintro ⟨source', hsource, h⟩
    obtain ⟨target', htarget, h⟩ := bind_eq_ok_iff.1 h
    split at h
    · cases h
    · rename_i hnames
      rw [Bool.or_eq_true, not_or, Bool.not_eq_true', Bool.not_eq_false, Bool.not_eq_true',
        Bool.not_eq_false] at hnames
      obtain ⟨origin, horigin, h⟩ := bind_eq_ok_iff.1 h
      obtain ⟨place, hplace, h⟩ := bind_eq_ok_iff.1 h
      split at h
      · cases h
      · cases h
      · rename_i bytes hbytes
        split at h
        · cases h
        · rename_i hslashed
          rw [Bool.or_eq_true, not_or, Bool.not_eq_true, Bool.not_eq_true] at hslashed
          split at h
          · cases h
          · rename_i hfree
            rw [Except.ok.injEq] at h
            refine ⟨origin, place, bytes, ⟨⟨source', hsource, hnames.1, hslashed.1, horigin⟩, ?_⟩,
              ⟨⟨target', htarget, hnames.2, hslashed.2, hplace⟩, hfree⟩, hbytes, h.symm⟩
            rw [hbytes]
            simp
  · rintro ⟨origin, place, bytes, ⟨⟨source', hsource, hname, hslashed, horigin⟩, -⟩,
      ⟨⟨target', htarget, hname', hslashed', hplace⟩, hfree⟩, hbytes, rfl⟩
    refine ⟨source', hsource, bind_eq_ok_iff.2 ⟨target', htarget, ?_⟩⟩
    rw [hname, hname', if_neg (by simp)]
    refine bind_eq_ok_iff.2 ⟨origin, horigin, bind_eq_ok_iff.2 ⟨place, hplace, ?_⟩⟩
    simp only [hbytes, hslashed, hslashed', Bool.or_self, Bool.false_eq_true, if_false,
      if_neg hfree]

theorem fromUTF8?_toUTF8 (text : String) : String.fromUTF8? text.toUTF8 = some text := by
  simp only [String.fromUTF8?, String.toUTF8_eq_toByteArray, dif_pos text.isValidUTF8]
  rfl

theorem find_eq_ok_iff :
    t.find p = .ok (place, node) ↔ t.resolve p = .ok place ∧ t.node? place = some node := by
  rw [find, bind_eq_ok_iff]
  constructor
  · rintro ⟨place', hplace, h⟩
    split at h
    · rename_i node' hnode
      cases h
      exact ⟨hplace, hnode⟩
    · cases h
  · rintro ⟨hplace, hnode⟩
    exact ⟨place, hplace, by rw [hnode]⟩

theorem readText_of_resolve {text : String} (h : t.resolve p = .ok place)
    (hnode : t.node? place = some (.file text.toUTF8)) : t.readText p = .ok text := by
  have hbytes : t.readBytes p = .ok text.toUTF8 :=
    bind_eq_ok_iff.2 ⟨(place, .file text.toUTF8), find_eq_ok_iff.2 ⟨h, hnode⟩, rfl⟩
  exact bind_eq_ok_iff.2 ⟨text.toUTF8, hbytes, by rw [fromUTF8?_toUTF8]⟩

theorem exists?_of_readBytes {bytes : ByteArray} (h : t.readBytes p = .ok bytes) :
    t.exists? p = .ok true := by
  obtain ⟨found, hfound, -⟩ := bind_eq_ok_iff.1 h
  rw [exists?, hfound]

theorem exists?_of_readText {text : String} (h : t.readText p = .ok text) :
    t.exists? p = .ok true := by
  obtain ⟨bytes, hbytes, -⟩ := bind_eq_ok_iff.1 h
  exact exists?_of_readBytes hbytes

theorem readText_of_readBytes {bytes : ByteArray} (h : t.readBytes p = .ok bytes) :
    t.readText p = match String.fromUTF8? bytes with
      | some text => .ok text
      | none => .error .notUtf8 := by
  rw [readText, h]
  rfl

theorem exists?_eq_false_iff : t.exists? p = .ok false ↔ t.find p = .error .notFound := by
  rw [exists?]
  split <;> simp_all

/-- It cannot be said whether there is something at a path if the path cannot be followed. -/
theorem exists?_eq_error_iff {fault : OsFault} :
    t.exists? p = .error fault ↔ t.find p = .error fault ∧ fault ≠ .notFound := by
  rw [exists?]
  split <;> grind

theorem readText_of_find {fault : OsFault} (h : t.find p = .error fault) :
    t.readText p = .error fault := by
  rw [readText, readBytes, h]
  rfl

/-- A text is not found at a path only if nothing is. -/
theorem exists?_of_readText_notFound (h : t.readText p = .error .notFound) :
    t.exists? p = .ok false := by
  rw [readText, readBytes] at h
  cases hfind : t.find p with
  | error fault =>
    rw [hfind] at h
    cases h
    rw [exists?, hfind]
  | ok found =>
    obtain ⟨place, node⟩ := found
    rw [hfind] at h
    cases node with
    | directory => cases h
    | file bytes =>
      dsimp only [bind, Except.bind] at h
      split at h <;> cases h

/-! ## Creating directories -/

theorem isDirectory_iff :
    t.isDirectory p = true ↔
      ∃ place, t.resolve p = .ok place ∧ t.node? place = some .directory := by
  rw [isDirectory]
  constructor
  · intro h
    split at h
    · rename_i place hfind
      exact ⟨place, find_eq_ok_iff.1 hfind⟩
    · cases h
  · rintro ⟨place, hplace⟩
    rw [find_eq_ok_iff.2 hplace]

theorem KeepsDirectories.isDirectory (h : KeepsDirectories t t') (hp : t.isDirectory p = true) :
    t'.isDirectory p = true := by
  obtain ⟨place, hplace, hnode⟩ := isDirectory_iff.1 hp
  exact isDirectory_iff.2 ⟨place, h.resolve hplace, h place hnode⟩

theorem foldlM_follow_blanks {blanks : List String} (hblank : ∀ s ∈ blanks, s = "")
    (h : blanks.foldlM t.follow place = .ok q) : q = place := by
  induction blanks with
  | nil =>
    cases h
    rfl
  | cons s blanks ih =>
    rw [List.forall_mem_cons] at hblank
    obtain ⟨next, hnext, h⟩ := bind_eq_ok_iff.1 h
    have hstay := (follow_eq_ok_iff.1 hnext).2
    rw [hblank.1, if_pos (by decide), Except.ok.injEq] at hstay
    subst hstay
    exact ih hblank.2 h

theorem foldlM_follow_blanks_of_directory {blanks : List String} (hblank : ∀ s ∈ blanks, s = "")
    (h : t.node? place = some .directory) : blanks.foldlM t.follow place = .ok place := by
  induction blanks with
  | nil => rfl
  | cons s blanks ih =>
    rw [List.forall_mem_cons] at hblank
    have hstay : t.follow place s = .ok place := by
      rw [follow_eq_ok_iff, hblank.1]
      exact ⟨h, rfl⟩
    rw [List.foldlM_cons, hstay]
    exact ih hblank.2

theorem createDirectory_eq_ok_iff :
    t.createDirectory p = .ok t' ↔
      ∃ target place, t.target p = .ok target ∧ FilePath.isName target.last = true ∧
        placeIn target.directory target.last = .ok place ∧ t.node? place = none ∧
        t' = t.insert place .directory := by
  rw [createDirectory, bind_eq_ok_iff]
  constructor
  · rintro ⟨target, htarget, h⟩
    split at h
    · rename_i hname
      obtain ⟨place, hplace, h⟩ := bind_eq_ok_iff.1 h
      split at h
      · cases h
      · rename_i hfree
        rw [Except.ok.injEq] at h
        exact ⟨target, place, htarget, hname, hplace, Option.not_isSome_iff_eq_none.1 hfree, h.symm⟩
    · cases h
  · rintro ⟨target, place, htarget, hname, hplace, hnone, rfl⟩
    refine ⟨target, htarget, ?_⟩
    rw [if_pos hname, bind_eq_ok_iff]
    exact ⟨place, hplace, by rw [hnone]; rfl⟩

theorem isDirectory_of_createDirectory (h : t.createDirectory p = .ok t') :
    t'.isDirectory p = true := by
  obtain ⟨target, place, htarget, hname, hplace, hnone, rfl⟩ := createDirectory_eq_ok_iff.1 h
  have hne := placeIn_ne_nil hplace
  have hkeeps : KeepsDirectories t (t.insert place .directory) := by
    intro q hq
    rw [node?_insert hne]
    split
    · rfl
    · exact hq
  have hnode : (t.insert place .directory).node? place = some .directory := by
    rw [node?_insert hne, if_pos rfl]
  obtain ⟨outer, blanks, hends⟩ := ends_of_target (hkeeps.target htarget) hname
  refine isDirectory_iff.2 ⟨place, resolve_eq_ok_iff.2 ⟨hends.whole, ?_⟩, hnode⟩
  rw [hends.segments, hends.foldlM_append hname hplace]
  exact foldlM_follow_blanks_of_directory hends.blank hnode

theorem not_isDirectory_of_createDirectory (h : t.createDirectory p = .ok t') :
    t.isDirectory p = false := by
  obtain ⟨target, place, htarget, hname, hplace, hnone, rfl⟩ := createDirectory_eq_ok_iff.1 h
  obtain ⟨outer, blanks, hends⟩ := ends_of_target htarget hname
  refine eq_false_of_ne_true fun hp => ?_
  obtain ⟨q, hq, hnode⟩ := isDirectory_iff.1 hp
  rw [resolve_eq_ok_iff, hends.segments, hends.foldlM_append hname hplace] at hq
  rw [foldlM_follow_blanks hends.blank hq.2, hnone] at hnode
  cases hnode

theorem ensureDirectory_of_isDirectory (h : t.isDirectory p = true) :
    t.ensureDirectory p = .ok t := by
  rw [ensureDirectory]
  cases hcreated : t.createDirectory p with
  | ok t' =>
    rw [not_isDirectory_of_createDirectory hcreated] at h
    cases h
  | error fault => exact if_pos h

theorem isDirectory_of_ensureDirectory (h : t.ensureDirectory p = .ok t') :
    t'.isDirectory p = true := by
  rw [ensureDirectory] at h
  cases hcreated : t.createDirectory p with
  | ok t'' =>
    rw [hcreated] at h
    cases h
    exact isDirectory_of_createDirectory hcreated
  | error fault =>
    rw [hcreated] at h
    simp only at h
    split at h
    · rename_i hp
      cases h
      exact hp
    · cases h

theorem ancestors_eq_cons (p : FilePath) : ∃ outer, p.ancestors = p :: outer := by
  rw [FilePath.ancestors]
  cases p.segments.length with
  | zero => exact ⟨[], rfl⟩
  | succ n => exact ⟨_, rfl⟩

theorem isDirectory_of_createDirectories {done : Unit}
    (h : t.createDirectories p = (.ok done, t')) : t'.isDirectory p = true := by
  obtain ⟨outer, houter⟩ := ancestors_eq_cons p
  rw [createDirectories, houter, createAlong] at h
  split at h
  · rename_i hp
    cases h
    exact isDirectory_of_ensureDirectory hp
  · split at h
    · cases h
    · split at h
      · rename_i hp
        cases h
        exact isDirectory_of_ensureDirectory hp
      · cases h
  · cases h

theorem createDirectories_of_isDirectory (h : t.isDirectory p = true) :
    t.createDirectories p = (.ok (), t) := by
  obtain ⟨outer, houter⟩ := ancestors_eq_cons p
  rw [createDirectories, houter, createAlong, ensureDirectory_of_isDirectory h]

end FileTree
end AuditTrail
