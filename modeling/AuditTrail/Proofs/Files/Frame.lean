import AuditTrail.Proofs.Files.Writing

/-!
# What changes around a path leave at it

Two changes come before a document is put in its place: the directories around it are created, and a
draft is written beside it.  Neither changes what is found at the path of the document.  A directory
that is created on the way leads nowhere, since nothing can have been inside it
(`find_insert_directory`), and a file beside the document is not on the way to it
(`Takes.find_insert_file`).
-/

namespace AuditTrail

/-! ## Paths -/

namespace FilePath

variable {p a : FilePath} {outer : List String} {last : String}

/-- A path that goes inwards only, along names that a directory can have. -/
def IsPlain (p : FilePath) : Prop :=
  ∀ s ∈ p.segments, s ≠ outside ∧ s.utf8ByteSize ≤ FileTree.maxNameSize

/-- The name in which a path ends, if it ends in one. -/
def name? (p : FilePath) : Option String := p.trimmed.segments.getLast?.filter isName

/-- Where a path leads that goes inwards only. -/
def route (segments : List String) : Place := segments.filter isName

theorem isName_eq_true_iff {s : String} : isName s = true ↔ isIdle s = false ∧ s ≠ outside := by
  rw [isName, Bool.and_eq_true, Bool.not_eq_true', bne_iff_ne]

theorem isName_of_ne {s : String} (hidle : isIdle s = false) (hout : s ≠ outside) :
    isName s = true :=
  isName_eq_true_iff.2 ⟨hidle, hout⟩

theorem isName_of_lt_length {s : String} (h : 2 < s.length) : isName s = true := by
  refine isName_of_ne ?_ ?_
  · rw [isIdle, Bool.or_eq_false_iff, Bool.eq_false_iff, beq_eq_false_iff_ne, Ne,
      String.isEmpty_iff]
    constructor <;> rintro rfl <;> exact absurd h (by decide)
  · rintro rfl
    exact absurd h (by decide)

theorem hasZero_of_isPrefix (h : a.segments <+: p.segments) (hp : p.hasZero = false) :
    a.hasZero = false := by
  obtain ⟨rest, hrest⟩ := h
  rw [hasZero, ← hrest, List.any_append, Bool.or_eq_false_iff] at hp
  exact hp.1

theorem trimmed_of_not_isIdle (h : isIdle last = false) :
    trimmed ⟨outer ++ [last]⟩ = ⟨outer ++ [last]⟩ := by
  rw [trimmed, List.reverse_append, List.reverse_singleton, List.singleton_append,
    List.dropWhile_cons_of_neg (by simp [h])]
  simp

theorem trimmed_of_isName (h : isName last = true) :
    trimmed ⟨outer ++ [last]⟩ = ⟨outer ++ [last]⟩ :=
  trimmed_of_not_isIdle (isName_eq_true_iff.1 h).1

theorem exists_segments_eq_trimmed_append (p : FilePath) :
    ∃ idles, p.segments = p.trimmed.segments ++ idles ∧ ∀ s ∈ idles, isIdle s = true := by
  refine ⟨(p.segments.reverse.takeWhile isIdle).reverse, ?_, fun s hs => ?_⟩
  · rw [trimmed, ← List.reverse_append, List.takeWhile_append_dropWhile, List.reverse_reverse]
  · exact List.all_eq_true.1 List.all_takeWhile s (List.mem_reverse.1 hs)

theorem trimmed_isPrefix (p : FilePath) : p.trimmed.segments <+: p.segments := by
  obtain ⟨idles, hsegments, -⟩ := exists_segments_eq_trimmed_append p
  exact ⟨idles, hsegments.symm⟩

/-- When the idle segments at its end are gone, a path does not end in an idle one. -/
theorem not_isIdle_of_trimmed (h : p.trimmed.segments = outer ++ [last]) : isIdle last = false := by
  have hreverse : p.segments.reverse.dropWhile isIdle = last :: outer.reverse := by
    rw [trimmed] at h
    simpa using congrArg List.reverse h
  have hhead := List.head?_dropWhile_not isIdle p.segments.reverse
  rw [hreverse, List.head?_cons] at hhead
  exact hhead

theorem parent_isPrefix (p : FilePath) : p.parent.segments <+: p.trimmed.segments.dropLast :=
  trimmed_isPrefix _

theorem isPrefix_of_mem_ancestors (h : a ∈ p.ancestors) : a.segments <+: p.segments := by
  rw [ancestors] at h
  generalize p.segments.length = n at h
  induction n generalizing p with
  | zero =>
    rw [ancestorsWithin, List.mem_singleton] at h
    subst h
    exact List.prefix_rfl
  | succ n ih =>
    rcases List.mem_cons.1 h with rfl | h
    · exact List.prefix_rfl
    · have hinner : p.trimmed.segments.dropLast <+: p.trimmed.segments :=
        List.dropLast_prefix p.trimmed.segments
      exact (ih h).trans (((parent_isPrefix p).trans hinner).trans (trimmed_isPrefix p))

theorem name?_eq_some_iff {name : String} :
    p.name? = some name ↔ isName name = true ∧ ∃ outer, p.trimmed.segments = outer ++ [name] := by
  rw [name?, Option.filter_eq_some_iff, List.getLast?_eq_some_iff]
  exact And.comm

theorem name?_eq_none_of_outside : name? ⟨outer ++ [outside]⟩ = none := by
  rw [name?, trimmed_of_not_isIdle (by decide), List.getLast?_concat]
  rfl

theorem name?_of_isName (outer : List String) (h : isName last = true) :
    name? ⟨outer ++ [last]⟩ = some last :=
  name?_eq_some_iff.2 ⟨h, outer, by rw [trimmed_of_isName h]⟩

/-- What the name in which a path ends becomes when the path gets an extension. -/
theorem withExtension_eq (h : p.trimmed.segments = outer ++ [last]) (hlast : isName last = true)
    (extension : String) :
    p.withExtension extension =
      if stem last.toList = ['.'] ∧ p = p.trimmed then ⟨outer ++ [outside]⟩
      else ⟨outer ++ [String.ofList (stem last.toList) ++ "." ++ extension]⟩ := by
  rw [withExtension, h, List.getLast?_concat, List.dropLast_concat]
  simp only [if_neg (isName_eq_true_iff.1 hlast).2]

theorem name?_withExtension (h : p.trimmed.segments = outer ++ [last]) (hlast : isName last = true)
    {extension : String} (hlong : 2 ≤ extension.length) :
    (p.withExtension extension).name? =
      if stem last.toList = ['.'] ∧ p = p.trimmed then none
      else some (String.ofList (stem last.toList) ++ ("." ++ extension)) := by
  rw [withExtension_eq h hlast]
  split
  · exact name?_eq_none_of_outside
  · rw [String.append_assoc]
    refine name?_of_isName outer (isName_of_lt_length ?_)
    rw [String.length_append, String.length_append]
    have hdot : ".".length = 1 := by decide
    omega

/-- Only the last segment of a path is another when the path gets an extension. -/
theorem withExtension_cases (p : FilePath) (extension : String) :
    p.withExtension extension = p ∨
      ∃ outer last name, p.trimmed.segments = outer ++ [last] ∧ isName last = true ∧
        p.withExtension extension = ⟨outer ++ [name]⟩ := by
  cases hlast : p.trimmed.segments.getLast? with
  | none =>
    rw [withExtension, hlast]
    exact Or.inl rfl
  | some last =>
    obtain ⟨outer, houter⟩ := List.getLast?_eq_some_iff.1 hlast
    by_cases hout : last = outside
    · rw [withExtension, hlast]
      exact Or.inl (if_pos hout)
    · have hname := isName_of_ne (not_isIdle_of_trimmed houter) hout
      refine Or.inr ⟨outer, last, ?_⟩
      rw [withExtension_eq houter hname]
      split
      · exact ⟨_, houter, hname, rfl⟩
      · exact ⟨_, houter, hname, rfl⟩

theorem stem_append {base extension : List Char} (hbase : base ≠ []) (hdot : '.' ∉ extension) :
    stem (base ++ '.' :: extension) = base := by
  have hreverse : ((base ++ '.' :: extension).reverse.dropWhile (· ≠ '.')).drop 1 =
      base.reverse := by
    have hends : ∀ c ∈ extension.reverse, decide (c ≠ '.') = true := by
      intro c hc
      rw [List.mem_reverse] at hc
      exact decide_eq_true (by rintro rfl; exact hdot hc)
    rw [List.reverse_append, List.reverse_cons, List.append_assoc, List.singleton_append,
      List.dropWhile_append_of_pos hends, List.dropWhile_cons_of_neg (by simp), List.drop_one,
      List.tail_cons]
  rw [stem, hreverse]
  simp [hbase]

theorem stem_ne_nil {name : List Char} (h : name ≠ []) : stem name ≠ [] := by
  rw [stem]
  split
  · exact h
  · rename_i hbefore
    simpa using hbefore

/-- Only the last segment of a path is another when the path gets an extension. -/
theorem exists_withExtension_eq (outer : List String) {last : String} (h : isName last = true)
    (extension : String) :
    ∃ name, withExtension ⟨outer ++ [last]⟩ extension = ⟨outer ++ [name]⟩ := by
  rcases withExtension_cases ⟨outer ++ [last]⟩ extension with hsame |
    ⟨outer', last', name, hsegments, -, hname⟩
  · exact ⟨last, hsame⟩
  · rw [trimmed_of_isName h] at hsegments
    obtain ⟨houter, -⟩ := List.append_inj' hsegments rfl
    rw [← houter] at hname
    exact ⟨name, hname⟩

end FilePath

namespace FileTree

variable {t t' : FileTree} {p a : FilePath} {place q : Place} {segments : List String}

/-! ## Sound trees -/

/-- Whatever there is in a tree, is in a directory. -/
def IsSound (t : FileTree) : Prop :=
  ∀ place node, t.node? place = some node → t.node? place.dropLast = some .directory

theorem isSound_empty : empty.IsSound := by
  intro place node h
  rw [node?] at h
  split at h
  · rename_i hplace
    rw [hplace]
    rfl
  · simp [empty] at h

theorem IsSound.node?_below (h : t.IsSound) {directory : Place} {name : String}
    (hdirectory : t.node? directory = none) : t.node? (directory ++ [name]) = none := by
  cases hnode : t.node? (directory ++ [name]) with
  | none => rfl
  | some node =>
    have habove := h _ node hnode
    rw [List.dropLast_concat, hdirectory] at habove
    cases habove

theorem keepsDirectories_insert_directory (hne : place ≠ []) :
    KeepsDirectories t (t.insert place .directory) := by
  intro q hq
  rw [node?_insert hne]
  split
  · rfl
  · exact hq

theorem IsSound.insert {node : FileNode} (h : t.IsSound) (hne : place ≠ [])
    (hplace : t.node? place.dropLast = some .directory)
    (hkeeps : KeepsDirectories t (t.insert place node)) : (t.insert place node).IsSound := by
  intro q other hq
  rw [node?_insert hne] at hq
  split at hq
  · rename_i heq
    rw [← heq]
    exact hkeeps _ hplace
  · exact hkeeps _ (h q other hq)

theorem Takes.directory (h : t.Takes p place) : t.node? place.dropLast = some .directory := by
  obtain ⟨target, outer, hends, -, hplace⟩ := h.ends
  rw [placeIn_eq_ok hplace, List.dropLast_concat]
  exact hends.directory

theorem IsSound.insert_file (h : t.IsSound) (htakes : t.Takes p place) (bytes : ByteArray) :
    (t.insert place (.file bytes)).IsSound :=
  h.insert htakes.ne_nil htakes.directory
    (sameDirectories_insert_file htakes.ne_nil htakes.free bytes).keeps

theorem IsSound.createDirectory (h : t.IsSound) (hcreated : t.createDirectory p = .ok t') :
    t'.IsSound := by
  obtain ⟨target, place, htarget, hname, hplace, -, rfl⟩ := createDirectory_eq_ok_iff.1 hcreated
  obtain ⟨outer, blanks, hends⟩ := ends_of_target htarget hname
  refine h.insert (placeIn_ne_nil hplace) ?_ (keepsDirectories_insert_directory
    (placeIn_ne_nil hplace))
  rw [placeIn_eq_ok hplace, List.dropLast_concat]
  exact hends.directory

/-! ## Finding from a place on -/

/-- What is found from a place on along the rest of a path. -/
def findFrom (t : FileTree) (place : Place) (segments : List String) :
    Except OsFault (Place × FileNode) := do
  let place ← segments.foldlM t.follow place
  match t.node? place with
  | some node => .ok (place, node)
  | none => .error .notFound

theorem find_eq_findFrom (t : FileTree) (p : FilePath) :
    t.find p = if p.hasZero then .error .zeroInPath else t.findFrom [] p.segments := by
  rw [find, resolve]
  split <;> rfl

theorem findFrom_nil (t : FileTree) (place : Place) :
    t.findFrom place [] = match t.node? place with
      | some node => .ok (place, node)
      | none => .error .notFound := rfl

theorem findFrom_cons (t : FileTree) (place : Place) (s : String) (segments : List String) :
    t.findFrom place (s :: segments) =
      t.follow place s >>= fun place => t.findFrom place segments := by
  rw [findFrom, List.foldlM_cons, bind_assoc]
  rfl

theorem findFrom_append {outer : List String} (h : outer.foldlM t.follow place = .ok q)
    (segments : List String) : t.findFrom place (outer ++ segments) = t.findFrom q segments := by
  rw [findFrom, List.foldlM_append, h]
  rfl

theorem findFrom_of_none (h : t.node? place = none) (segments : List String) :
    t.findFrom place segments = .error .notFound := by
  cases segments with
  | nil => rw [findFrom_nil, h]
  | cons s segments =>
    have henter : t.enter place = .error .notFound := by rw [enter, h]
    rw [findFrom_cons, FileTree.follow, henter]
    rfl

theorem follow_congr (h : t'.node? place = t.node? place) (s : String) :
    t'.follow place s = t.follow place s := by
  rw [FileTree.follow, FileTree.follow, enter, enter, h]

theorem follow_idle {s : String} (h : FilePath.isIdle s = true) :
    t.follow place s = t.enter place >>= fun _ => .ok place := by
  rw [FileTree.follow]
  simp only [h, if_true]

theorem follow_of_isName {s : String} (h : FilePath.isName s = true) :
    t.follow place s = t.enter place >>= fun _ => placeIn place s := by
  have hcases := FilePath.isName_eq_true_iff.1 h
  rw [FileTree.follow]
  simp only [hcases.1, Bool.false_eq_true, if_false, if_neg hcases.2]

theorem placeIn_of_le {directory : Place} {name : String} (h : name.utf8ByteSize ≤ maxNameSize) :
    placeIn directory name = .ok (directory ++ [name]) := by
  rw [placeIn, if_neg (Nat.not_lt.2 h)]

/-- What is found along idle segments depends on the place alone. -/
theorem findFrom_idles_congr (h : t'.node? place = t.node? place)
    (hidle : ∀ s ∈ segments, FilePath.isIdle s = true) :
    t'.findFrom place segments = t.findFrom place segments := by
  induction segments with
  | nil => rw [findFrom_nil, findFrom_nil, h]
  | cons s segments ih =>
    rw [List.forall_mem_cons] at hidle
    rw [findFrom_cons, findFrom_cons, follow_congr h, follow_idle hidle.1]
    cases t.enter place with
    | error fault => rfl
    | ok done => exact ih hidle.2

/-- From a directory a path goes on along every segment but a name that is too long. -/
theorem follow_of_directory (h : t.node? place = some .directory) (s : String) :
    if maxNameSize < s.utf8ByteSize then t.follow place s = .error .nameTooLong
    else ∃ q, t.follow place s = .ok q := by
  cases hidle : FilePath.isIdle s with
  | true =>
    have hshort : s.utf8ByteSize ≤ maxNameSize := by
      rw [FilePath.isIdle, Bool.or_eq_true, String.isEmpty_iff, beq_iff_eq] at hidle
      rcases hidle with rfl | rfl <;> decide
    rw [if_neg (Nat.not_lt.2 hshort), follow_idle hidle, enter_eq_ok_iff.2 h]
    exact ⟨place, rfl⟩
  | false =>
    by_cases hout : s = FilePath.outside
    · subst hout
      exact ⟨place.dropLast, follow_eq_ok_iff.2 ⟨h, rfl⟩⟩
    · rw [follow_of_isName (FilePath.isName_of_ne hidle hout), enter_eq_ok_iff.2 h]
      split
      · rename_i hlong
        exact if_pos hlong
      · rename_i hshort
        exact ⟨place ++ [s], if_neg hshort⟩

/-- Whatever path can be followed has no name in it that is too long. -/
theorem size_le_of_foldlM (h : segments.foldlM t.follow place = .ok q) :
    ∀ s ∈ segments, s.utf8ByteSize ≤ maxNameSize := by
  induction segments generalizing place with
  | nil => simp
  | cons s segments ih =>
    obtain ⟨next, hnext, hrest⟩ := bind_eq_ok_iff.1 h
    refine List.forall_mem_cons.2 ⟨?_, ih hrest⟩
    refine Nat.not_lt.1 fun hlong => ?_
    have hfails := follow_of_directory (follow_eq_ok_iff.1 hnext).1 s
    rw [if_pos hlong, hnext] at hfails
    cases hfails

theorem isPlain_of_resolve (hout : FilePath.outside ∉ p.segments) (h : t.resolve p = .ok place) :
    p.IsPlain := by
  intro s hs
  refine ⟨?_, size_le_of_foldlM (resolve_eq_ok_iff.1 h).2 s hs⟩
  rintro rfl
  exact hout hs

/-! ## Directories on the way -/

/-- A step along a way that goes inwards only. -/
theorem append_route_of_follow {s : String} (hs : s ≠ FilePath.outside)
    (h : t.follow place s = .ok q) (segments : List String) :
    q ++ FilePath.route segments = place ++ FilePath.route (s :: segments) := by
  obtain ⟨-, hnext⟩ := follow_eq_ok_iff.1 h
  cases hidle : FilePath.isIdle s with
  | true =>
    rw [hidle, if_pos rfl, Except.ok.injEq] at hnext
    rw [hnext, FilePath.route, FilePath.route,
      List.filter_cons_of_neg (by simp [FilePath.isName, hidle])]
  | false =>
    rw [hidle, if_neg (by simp), if_neg hs] at hnext
    rw [placeIn_eq_ok hnext, FilePath.route, FilePath.route,
      List.filter_cons_of_pos (FilePath.isName_of_ne hidle hs), List.append_assoc,
      List.singleton_append]

theorem eq_route_of_foldlM (hout : FilePath.outside ∉ segments)
    (h : segments.foldlM t.follow place = .ok q) : q = place ++ FilePath.route segments := by
  induction segments generalizing place with
  | nil =>
    rw [List.foldlM_nil] at h
    cases h
    exact (List.append_nil _).symm
  | cons s segments ih =>
    rw [List.mem_cons, not_or] at hout
    obtain ⟨next, hnext, hrest⟩ := bind_eq_ok_iff.1 h
    rw [ih hout.2 hrest]
    exact append_route_of_follow (Ne.symm hout.1) hnext segments

section NewDirectory

variable (hsound : t.IsSound) (hnone : t.node? place = none)

include hnone in
theorem node?_insert_directory (q : Place) :
    (t.insert place .directory).node? q = if place = q then some .directory else t.node? q := by
  refine node?_insert ?_
  rintro rfl
  cases hnone

include hsound hnone

/-- A new directory has nothing in it. -/
theorem findFrom_new (hplain : FilePath.IsPlain ⟨segments⟩)
    (hroute : FilePath.route segments ≠ []) :
    (t.insert place .directory).findFrom place segments = .error .notFound := by
  have henter : (t.insert place .directory).enter place = .ok () := by
    rw [enter, node?_insert_directory hnone, if_pos rfl]
  induction segments with
  | nil => exact absurd rfl hroute
  | cons s segments ih =>
    obtain ⟨hout, hsize⟩ := hplain s List.mem_cons_self
    cases hidle : FilePath.isIdle s with
    | true =>
      rw [FilePath.route, List.filter_cons_of_neg (by simp [FilePath.isName, hidle])] at hroute
      rw [findFrom_cons, follow_idle hidle, henter]
      exact ih (fun x hx => hplain x (List.mem_cons_of_mem s hx)) hroute
    | false =>
      have hbelow : (t.insert place .directory).node? (place ++ [s]) = none := by
        rw [node?_insert_directory hnone, if_neg (by simp)]
        exact hsound.node?_below hnone
      rw [findFrom_cons, follow_of_isName (FilePath.isName_of_ne hidle hout), henter,
        placeIn_of_le hsize]
      exact findFrom_of_none hbelow segments

theorem findFrom_insert_directory (hplain : FilePath.IsPlain ⟨segments⟩)
    (hpast : q ++ FilePath.route segments ≠ place) :
    (t.insert place .directory).findFrom q segments = t.findFrom q segments := by
  have hother {r : Place} (hr : r ≠ place) : (t.insert place .directory).node? r = t.node? r := by
    rw [node?_insert_directory hnone, if_neg hr.symm]
  induction segments generalizing q with
  | nil =>
    rw [FilePath.route, List.filter_nil, List.append_nil] at hpast
    rw [findFrom_nil, findFrom_nil, hother hpast]
  | cons s segments ih =>
    by_cases hq : q = place
    · -- the way went on where nothing was, and now goes on where nothing is
      subst hq
      rw [findFrom_of_none hnone, findFrom_new hsound hnone hplain (by simpa using hpast)]
    · rw [findFrom_cons, findFrom_cons, follow_congr (hother hq)]
      cases hnext : t.follow q s with
      | error fault => rfl
      | ok next =>
        obtain ⟨hout, -⟩ := hplain s List.mem_cons_self
        refine ih (fun x hx => hplain x (List.mem_cons_of_mem s hx)) ?_
        rw [append_route_of_follow hout hnext]
        exact hpast

end NewDirectory

/-- The place of a new directory, if the way to it goes inwards only. -/
theorem place_eq_route_of_ends {target : Target} {outer blanks : List String}
    (hends : Ends t a target outer blanks) (hname : FilePath.isName target.last = true)
    (hplace : placeIn target.directory target.last = .ok place)
    (hout : FilePath.outside ∉ a.segments) : place = FilePath.route a.segments := by
  have houter : FilePath.outside ∉ outer := by
    rw [hends.segments, List.mem_append, not_or] at hout
    exact hout.1
  have hdirectory := eq_route_of_foldlM houter hends.outer
  have hblanks : FilePath.route blanks = [] := by
    rw [FilePath.route, List.filter_eq_nil_iff]
    intro s hs
    rw [hends.blank s hs]
    decide
  rw [placeIn_eq_ok hplace, hdirectory, hends.segments, FilePath.route, FilePath.route,
    List.filter_append, List.filter_cons_of_pos hname]
  rw [FilePath.route] at hblanks
  rw [hblanks, List.nil_append]

/-- Fewer names lead to a directory around a path than to the path. -/
theorem route_ne_of_parent (hout : FilePath.outside ∉ p.segments)
    (ha : a.segments <+: p.parent.segments) (hnone : t.node? (FilePath.route a.segments) = none) :
    FilePath.route p.segments ≠ FilePath.route a.segments := by
  have hwithin := ha.trans (FilePath.parent_isPrefix p)
  rcases List.eq_nil_or_concat p.trimmed.segments with hnil | ⟨outer, last, hlast⟩
  · -- the way to the root has no names, and the root is there
    rw [hnil, List.dropLast_nil, List.prefix_nil] at hwithin
    rw [hwithin] at hnone
    cases hnone
  · rw [List.concat_eq_append] at hlast
    rw [hlast, List.dropLast_concat] at hwithin
    obtain ⟨idles, hsegments, -⟩ := FilePath.exists_segments_eq_trimmed_append p
    have hname : FilePath.isName last = true := by
      refine FilePath.isName_of_ne (FilePath.not_isIdle_of_trimmed hlast) ?_
      rintro rfl
      exact hout (by simp [hsegments, hlast])
    have hshorter := (hwithin.sublist.filter FilePath.isName).length_le
    intro hsame
    have hlength := congrArg List.length hsame
    rw [hsegments, hlast, FilePath.route, FilePath.route, List.filter_append, List.filter_append,
      List.filter_cons_of_pos hname, List.length_append, List.length_append,
      List.length_cons] at hlength
    omega

/-- What is found at a path that goes inwards only does not change when one of the directories
around it is created. -/
theorem find_of_createDirectory (hsound : t.IsSound) (hplain : p.IsPlain)
    (ha : a ∈ p.parent.ancestors) (hcreated : t.createDirectory a = .ok t') :
    t'.find p = t.find p := by
  obtain ⟨target, place, htarget, hname, hplace, hnone, rfl⟩ := createDirectory_eq_ok_iff.1 hcreated
  obtain ⟨outer, blanks, hends⟩ := ends_of_target htarget hname
  have hwithin := FilePath.isPrefix_of_mem_ancestors ha
  have hout : FilePath.outside ∉ p.segments := fun hmem => (hplain _ hmem).1 rfl
  have hinwards : FilePath.outside ∉ a.segments := by
    intro hmem
    have houter := List.dropLast_subset _ ((hwithin.trans (FilePath.parent_isPrefix p)).subset hmem)
    exact hout ((FilePath.trimmed_isPrefix p).subset houter)
  have hroute := place_eq_route_of_ends hends hname hplace hinwards
  rw [find_eq_findFrom, find_eq_findFrom]
  split
  · rfl
  · refine findFrom_insert_directory hsound hnone hplain ?_
    rw [hroute] at hnone ⊢
    exact route_ne_of_parent hout hwithin hnone

/-- No directory is created around a path if the inmost of them is there. -/
theorem isDirectory_of_prefix (hp : t.isDirectory p = true) (ha : a.segments <+: p.segments) :
    t.isDirectory a = true := by
  obtain ⟨place, hplace, hnode⟩ := isDirectory_iff.1 hp
  obtain ⟨hwhole, hleads⟩ := resolve_eq_ok_iff.1 hplace
  have hzero : a.hasZero = false := FilePath.hasZero_of_isPrefix ha hwhole
  obtain ⟨rest, hrest⟩ := ha
  rw [← hrest, List.foldlM_append] at hleads
  obtain ⟨reached, hreached, hleads⟩ := bind_eq_ok_iff.1 hleads
  refine isDirectory_iff.2 ⟨reached, resolve_eq_ok_iff.2 ⟨hzero, hreached⟩, ?_⟩
  cases rest with
  | nil =>
    rw [List.foldlM_nil] at hleads
    cases hleads
    exact hnode
  | cons s rest =>
    obtain ⟨next, hnext, -⟩ := bind_eq_ok_iff.1 hleads
    exact (follow_eq_ok_iff.1 hnext).1

/-! ## A file beside the path -/

theorem find_of_resolve (hp : t.resolve p = .ok place) :
    t.find p = match t.node? place with
      | some node => .ok (place, node)
      | none => .error .notFound := by
  rw [find, hp]
  rfl

theorem Takes.ne_of_withExtension {extension : String} (hp : t.Takes p place)
    (hq : t.Takes (p.withExtension extension) q) (hne : p.withExtension extension ≠ p) :
    q ≠ place := by
  obtain ⟨target, outer, hends, hname, hplace⟩ := hp.ends
  obtain ⟨target', outer', hends', hname', hplace'⟩ := hq.ends
  have hsegments : p = ⟨outer ++ [target.last]⟩ := congrArg FilePath.mk hends.segments
  obtain ⟨name, hextended⟩ := FilePath.exists_withExtension_eq outer hname extension
  rw [hsegments, hextended] at hends' hne
  obtain ⟨houter, hlast⟩ := List.append_inj' hends'.segments rfl
  have hdirectory : target'.directory = target.directory := by
    have h := hends'.outer
    rw [← houter, hends.outer, Except.ok.injEq] at h
    exact h.symm
  rw [placeIn_eq_ok hplace, placeIn_eq_ok hplace', hdirectory]
  intro heq
  have hlasts := List.append_cancel_left heq
  rw [← hlast] at hlasts
  exact hne (by rw [hlasts])

theorem readText_congr (h : t'.find p = t.find p) : t'.readText p = t.readText p := by
  rw [readText, readText, readBytes, readBytes, h]

/-- What is read at a path does not change by a file that is put elsewhere. -/
theorem readText_insert_file (hp : t.resolve p = .ok place) (hne : q ≠ [])
    (hfree : t.node? q ≠ some .directory) (hother : q ≠ place) (bytes : ByteArray) :
    (t.insert q (.file bytes)).readText p = t.readText p := by
  have hresolve := (sameDirectories_insert_file hne hfree bytes).keeps.resolve hp
  refine readText_congr ?_
  rw [find_of_resolve hresolve, find_of_resolve hp, node?_insert hne, if_neg hother]

/-- What is found at a path does not change by a file that is put beside it. -/
theorem Takes.find_insert_file {extension : String} (h : t.Takes (p.withExtension extension) place)
    (hapart : ∀ name, p.name? = some name → (p.withExtension extension).name? ≠ some name)
    (bytes : ByteArray) : (t.insert place (.file bytes)).find p = t.find p := by
  obtain ⟨target, outer, hends, hname, hplace⟩ := h.ends
  have hsame := sameDirectories_insert_file h.ne_nil h.free bytes
  rcases FilePath.withExtension_cases p extension with heq |
    ⟨outer', last, name, hsegments, hlast, hextended⟩
  · have hnamed : p.name? = some target.last := by
      rw [heq] at hends
      rw [← FilePath.name?_of_isName outer hname, ← hends.segments]
    exact absurd (by rw [heq, hnamed]) (hapart _ hnamed)
  · rw [hextended] at hends hapart
    obtain ⟨rfl, hnames⟩ := List.append_inj' hends.segments rfl
    obtain rfl : name = target.last := List.singleton_inj.1 hnames
    have hother : last ≠ target.last := by
      intro hsame
      refine hapart last (FilePath.name?_eq_some_iff.2 ⟨hlast, _, hsegments⟩) ?_
      rw [hsame]
      exact FilePath.name?_of_isName _ hname
    obtain ⟨idles, hwhole, hidles⟩ := FilePath.exists_segments_eq_trimmed_append p
    rw [hsegments, List.append_assoc, List.singleton_append] at hwhole
    have hreaches := hsame.keeps.foldlM_follow hends.outer
    have hkept {r : Place} (hr : place ≠ r) :
        (t.insert place (.file bytes)).node? r = t.node? r := by
      rw [node?_insert h.ne_nil, if_neg hr]
    have haround : place ≠ target.directory := by
      rw [placeIn_eq_ok hplace]
      simp
    rw [find_eq_findFrom, find_eq_findFrom, hwhole, findFrom_append hends.outer,
      findFrom_append hreaches, findFrom_cons, findFrom_cons, follow_congr (hkept haround)]
    cases hnext : t.follow target.directory last with
    | error fault => rfl
    | ok next =>
      have hbeside : place ≠ next := by
        rw [follow_of_isName hlast] at hnext
        obtain ⟨-, -, hlastPlace⟩ := bind_eq_ok_iff.1 hnext
        rw [placeIn_eq_ok hplace, placeIn_eq_ok hlastPlace]
        exact fun heq => hother (List.singleton_inj.1 (List.append_cancel_left heq)).symm
      show (if p.hasZero then _ else findFrom _ next idles) =
        if p.hasZero then _ else findFrom _ next idles
      rw [findFrom_idles_congr (hkept hbeside) hidles]

end FileTree
end AuditTrail
