import AuditTrail.Proofs.Resource.Ancestry
import AuditTrail.Proofs.Resource.Normal

/-!
# Paths are compared by their segments

A path spells a list of segments when it puts separators between them, and as many more as it likes
there and at its ends (`Spells`).  Every path spells one list and no other (`spells_iff`), and that
list is all that counts: whether the path is read, as which resource, and what that lies within
(`read_by_segments`).
-/

namespace AuditTrail.Resource

variable {r o : Resource} {segment : List Char}

/-! ## Reading the segments of a path -/

theorem segments_append_separator (front back : List Char) :
    segments (front ++ separator :: back) = segments front ++ segments back := by
  rw [segments, List.splitOn_append_cons_self, List.filter_append]
  rfl

theorem segments_separator_cons (path : List Char) :
    segments (separator :: path) = segments path :=
  segments_append_separator [] path

theorem segments_of_free (hsome : segment ≠ []) (hfree : separator ∉ segment) :
    segments segment = [segment] := by
  rw [segments, List.splitOn_eq_singleton hfree, List.filter_cons_of_pos (by simpa using hsome)]
  rfl

/-- The path consists of these segments, with one separator or more between each two of them and any
number of separators around them. -/
inductive Spells : List (List Char) → List Char → Prop
  | nil : Spells [] []
  | separator {ss : List (List Char)} {path : List Char} (h : Spells ss path) :
      Spells ss (separator :: path)
  | last {s : List Char} (hsome : s ≠ []) (hfree : Resource.separator ∉ s) : Spells [s] s
  | segment {s path : List Char} {ss : List (List Char)} (hsome : s ≠ [])
      (hfree : Resource.separator ∉ s) (h : Spells ss path) :
      Spells (s :: ss) (s ++ Resource.separator :: path)

theorem Spells.segments_eq {ss : List (List Char)} {path : List Char} (h : Spells ss path) :
    segments path = ss := by
  induction h with
  | nil => rfl
  | separator _ ih => rw [segments_separator_cons, ih]
  | last hsome hfree => exact segments_of_free hsome hfree
  | segment hsome hfree _ ih =>
    rw [segments_append_separator, segments_of_free hsome hfree, ih, List.singleton_append]

theorem spells_segments (path : List Char) : Spells (segments path) path := by
  induction hlength : path.length using Nat.strongRecOn generalizing path with
  | ind n ih =>
    by_cases hmem : separator ∈ path
    · obtain ⟨front, back, rfl, hfree⟩ := List.eq_append_cons_of_mem hmem
      have hback : Spells (segments back) back := by
        refine ih back.length ?_ back rfl
        rw [← hlength, List.length_append, List.length_cons]
        omega
      rw [segments_append_separator]
      by_cases hsome : front = []
      · rw [hsome]
        exact .separator hback
      · rw [segments_of_free hsome hfree, List.singleton_append]
        exact .segment hsome hfree hback
    · by_cases hsome : path = []
      · rw [hsome]
        exact .nil
      · rw [segments_of_free hsome hmem]
        exact .last hsome hmem

theorem spells_iff {ss : List (List Char)} {path : List Char} :
    Spells ss path ↔ segments path = ss := by
  constructor
  · exact Spells.segments_eq
  · rintro rfl
    exact spells_segments path

theorem segments_eq_nil_iff {path : List Char} :
    segments path = [] ↔ ∀ c ∈ path, c = separator := by
  induction path with
  | nil => simp [segments]
  | cons c path ih =>
    rw [List.forall_mem_cons, ← ih]
    by_cases hc : c = separator
    · rw [hc, segments_separator_cons, eq_self_iff_true, true_and]
    · -- the path begins with a character of a segment
      have hrooted : IsRooted (ofChars (c :: path)) := ⟨c, path, chars_ofChars _, hc⟩
      have hsome := hrooted.segments_ne_nil
      rw [chars_ofChars] at hsome
      simp [hsome, hc]

/-! ## Reading a resource -/

variable {p q : String}

theorem parse?_eq_none_iff : parse? p = none ↔ segments p.toList = [] := by
  rw [parse?]
  split
  · rename_i hnil
    simp [hnil]
  · rename_i first rest hsegments
    simp [hsegments]

theorem pieces_of_parse? (h : parse? p = some r) : r.pieces = segments p.toList :=
  splitOn_of_parse? h

theorem parse?_eq_iff : parse? p = parse? q ↔ segments p.toList = segments q.toList := by
  constructor
  · intro h
    cases hq : parse? q with
    | none =>
      rw [hq] at h
      rw [parse?_eq_none_iff.1 h, parse?_eq_none_iff.1 hq]
    | some r =>
      rw [hq] at h
      rw [← pieces_of_parse? h, ← pieces_of_parse? hq]
  · intro h
    rw [parse?, parse?, h]

theorem isWithin_iff_segments (hr : parse? p = some r) (ho : parse? q = some o) :
    r.isWithin o = true ↔ segments q.toList <+: segments p.toList := by
  rw [isWithin_iff_pieces, pieces_of_parse? hr, pieces_of_parse? ho]

/-- The segments that a path spells decide what it is read as.  A path without any is not read, and
any other one as its segments with single separators between them, which is read as itself.  Paths
are read alike exactly if they have the same segments, and one lies within another exactly if it
begins with the segments of that. -/
theorem read_by_segments (p q : String) :
    (∀ ss, Spells ss p.toList ↔ segments p.toList = ss) ∧
    (parse? p = none ↔ ∀ c ∈ p.toList, c = separator) ∧
    (∀ r, parse? p = some r →
      r.chars = [separator].intercalate (segments p.toList) ∧ parse? r.path = some r) ∧
    (parse? p = parse? q ↔ segments p.toList = segments q.toList) ∧
    ∀ r o, parse? p = some r → parse? q = some o →
      (r.isWithin o = true ↔ segments q.toList <+: segments p.toList) := by
  refine ⟨fun _ => spells_iff, ?_, fun r hr => ⟨?_, ?_⟩, parse?_eq_iff,
    fun _ _ => isWithin_iff_segments⟩
  · rw [parse?_eq_none_iff, segments_eq_nil_iff]
  · exact (parse?_eq_some_iff.1 hr).2
  · exact IsNormal.parse?_path ⟨p, hr⟩

/-- A keyspace whose name begins like that of another does not lie within it. -/
theorem read_by_segments_sibling :
    parse? "/data//ks2/" = some (keyspace "ks2") ∧ parse? "data/ks" = some (keyspace "ks") ∧
      (keyspace "ks2").isWithin (keyspace "ks") = false ∧
      (keyspace "ks2").isWithin data = true := by
  have hks2 : parse? "/data//ks2/" = some (keyspace "ks2") := by decide +kernel
  have hks : parse? "data/ks" = some (keyspace "ks") := by decide +kernel
  have hdata : parse? "data/" = some data := by decide +kernel
  obtain ⟨-, -, -, -, hbeside⟩ := read_by_segments "/data//ks2/" "data/ks"
  obtain ⟨-, -, -, -, habove⟩ := read_by_segments "/data//ks2/" "data/"
  refine ⟨hks2, hks, ?_, (habove _ _ hks2 hdata).2 (by decide +kernel)⟩
  rw [Bool.eq_false_iff, Ne, hbeside _ _ hks2 hks]
  decide +kernel

end AuditTrail.Resource
