import AuditTrail.Proofs.Resource.Containment
import AuditTrail.Proofs.Whitelist.RoundTrip

/-!
# Resources as they are written and read

The constructors, the readers and the scopes of a resource give the resources there are (`Made`).
The path of each is accepted by the reader (`Made.parse?_path`), which takes its empty segments out.
So the resource that is read is the one that was written exactly if it has no empty segment
(`isNormal_iff`).
-/

namespace AuditTrail.Resource

variable {r s : Resource}

/-- The resources that a program can come by. -/
inductive Made : Resource → Prop
  | data : Made data
  | keyspace (name : String) : Made (keyspace name)
  | table (keyspace name : String) : Made (table keyspace name)
  | roles : Made roles
  | role (name : String) : Made (role name)
  | found {path : String} {r : Resource} (h : parse? path = some r) : Made r
  | parsed {path : String} {r : Resource} (h : parse path = .ok r) : Made r
  | parent {r p : Resource} (hr : Made r) (h : r.parent? = some p) : Made p
  | scope {r p : Resource} (hr : Made r) (h : p ∈ r.lineage) : Made p

/-! ## The first segment -/

/-- The path begins with a character of a segment. -/
def IsRooted (r : Resource) : Prop := ∃ c cs, r.chars = c :: cs ∧ c ≠ separator

theorem chars_append (front back : String) :
    chars ⟨front ++ back⟩ = front.toList ++ back.toList := String.toList_append

theorem IsRooted.append {front : String} (h : IsRooted ⟨front⟩) (back : String) :
    IsRooted ⟨front ++ back⟩ := by
  obtain ⟨c, cs, hfront, hc⟩ := h
  refine ⟨c, cs ++ back.toList, ?_, hc⟩
  rw [chars_append, show front.toList = c :: cs from hfront]
  rfl

theorem isRooted_data : IsRooted data := ⟨'d', ['a', 't', 'a'], by decide, by decide⟩

theorem isRooted_roles : IsRooted roles := ⟨'r', ['o', 'l', 'e', 's'], by decide, by decide⟩

theorem mem_segments_iff {path segment : List Char} :
    segment ∈ segments path ↔ segment ∈ path.splitOn separator ∧ segment ≠ [] := by
  simp [segments]

theorem parse?_eq_some_iff {path : String} :
    parse? path = some r ↔
      segments path.toList ≠ [] ∧ r.chars = [separator].intercalate (segments path.toList) := by
  rw [parse?]
  split
  · rename_i hnil
    simp [hnil]
  · rename_i first rest hsegments
    rw [hsegments, Option.some.injEq]
    constructor
    · rintro rfl
      exact ⟨List.cons_ne_nil first rest, chars_ofChars _⟩
    · rintro ⟨-, hchars⟩
      rw [← hchars, ofChars_chars]

/-- What is read has the segments of the path between its separators. -/
theorem splitOn_of_parse? {path : String} (h : parse? path = some r) :
    r.chars.splitOn separator = segments path.toList := by
  obtain ⟨hne, hchars⟩ := parse?_eq_some_iff.1 h
  rw [hchars]
  refine List.splitOn_intercalate separator (fun segment hsegment => ?_) hne
  exact separator_not_mem_of_mem_splitOn (mem_segments_iff.1 hsegment).1

theorem isRooted_of_parse? {path : String} (h : parse? path = some r) : r.IsRooted := by
  obtain ⟨hne, hchars⟩ := parse?_eq_some_iff.1 h
  obtain ⟨first, rest, hsegments⟩ := List.exists_cons_of_ne_nil hne
  have hfirst : first ∈ segments path.toList := by
    rw [hsegments]
    exact List.mem_cons_self
  obtain ⟨hmem, hsome⟩ := mem_segments_iff.1 hfirst
  obtain ⟨c, cs, rfl⟩ := List.exists_cons_of_ne_nil hsome
  have hc : c ≠ separator := by
    rintro rfl
    exact separator_not_mem_of_mem_splitOn hmem List.mem_cons_self
  rw [hsegments] at hchars
  cases rest with
  | nil => exact ⟨c, cs, by simpa using hchars, hc⟩
  | cons next rest =>
    rw [List.intercalate_cons_cons] at hchars
    exact ⟨c, _, hchars, hc⟩

theorem parse_eq_ok_iff {path : String} : parse path = .ok r ↔ parse? path = some r := by
  rw [parse]
  split <;> simp_all

/-- What stands before the last separator begins where the whole path does, since the path does not
begin with a separator. -/
theorem IsRooted.parent (hr : r.IsRooted) {p : Resource} (h : r.parent? = some p) :
    p.IsRooted := by
  obtain ⟨c, cs, hchars, hc⟩ := hr
  obtain ⟨front, hfront, rfl⟩ := Option.map_eq_some_iff.1 h
  obtain ⟨last, hr, -⟩ := exists_append_of_upToLast? hfront
  rw [hchars] at hr
  cases front with
  | nil => exact absurd (List.cons.inj hr).1 hc
  | cons d front =>
    obtain ⟨rfl, -⟩ := List.cons.inj hr
    exact ⟨c, front, chars_ofChars _, hc⟩

theorem IsRooted.scope (hr : r.IsRooted) {p : Resource} (h : p ∈ r.lineage) : p.IsRooted := by
  induction r using lineage.induct with
  | case1 r ih =>
    rw [lineage, List.mem_cons] at h
    rcases h with rfl | h
    · exact hr
    · split at h
      · cases h
      · rename_i q hq
        exact ih q hq (hr.parent hq) h

theorem Made.isRooted (h : r.Made) : r.IsRooted := by
  induction h with
  | data => exact isRooted_data
  | keyspace name => exact (isRooted_data.append "/").append name
  | table keyspace name =>
    exact ((isRooted_data.append "/").append keyspace |>.append "/").append name
  | roles => exact isRooted_roles
  | role name => exact (isRooted_roles.append "/").append name
  | found h => exact isRooted_of_parse? h
  | parsed h => exact isRooted_of_parse? (parse_eq_ok_iff.1 h)
  | parent _ h ih => exact ih.parent h
  | scope _ h ih => exact ih.scope h

/-! ## What the reader makes of a path -/

/-- The resource that is read where this one was written. -/
def normal (r : Resource) : Resource := (parse? r.path).getD r

theorem IsRooted.segments_ne_nil (h : r.IsRooted) : segments r.chars ≠ [] := by
  obtain ⟨c, cs, hchars, hc⟩ := h
  rw [hchars]
  cases hcs : cs.splitOn separator with
  | nil => exact absurd hcs (List.splitOn_ne_nil separator cs)
  | cons first rest =>
    refine List.ne_nil_of_mem (a := c :: first) (mem_segments_iff.2 ⟨?_, List.cons_ne_nil c first⟩)
    rw [List.splitOn_cons_eq_if_modifyHead, if_neg (by simpa using hc), hcs, List.modifyHead_cons]
    exact List.mem_cons_self

/-- Some segment of the path is not empty. -/
def HasSegment (r : Resource) : Prop := segments r.chars ≠ []

theorem HasSegment.parse?_path (h : r.HasSegment) : parse? r.path = some r.normal := by
  have hparse : parse? r.path = some (ofChars ([separator].intercalate (segments r.chars))) :=
    parse?_eq_some_iff.2 ⟨h, chars_ofChars _⟩
  rw [normal, hparse, Option.getD_some]

theorem hasSegment_of_parse? (h : parse? r.path = some s) : r.HasSegment :=
  (parse?_eq_some_iff.1 h).1

theorem Made.hasSegment (h : r.Made) : r.HasSegment := h.isRooted.segments_ne_nil

theorem Made.parse?_path (h : r.Made) : parse? r.path = some r.normal := h.hasSegment.parse?_path

/-- Two separators of the path stand side by side, or it begins or ends with one. -/
def HasEmptySegment (r : Resource) : Prop := [] ∈ r.chars.splitOn separator

instance (r : Resource) : Decidable r.HasEmptySegment :=
  inferInstanceAs (Decidable ([] ∈ r.chars.splitOn separator))

theorem isNormal_iff : r.IsNormal ↔ ¬ r.HasEmptySegment := by
  constructor
  · rintro ⟨path, hpath⟩
    rw [HasEmptySegment, splitOn_of_parse? hpath]
    exact fun hempty => (mem_segments_iff.1 hempty).2 rfl
  · intro h
    have hsegments : segments r.chars = r.chars.splitOn separator := by
      refine List.filter_eq_self.2 fun segment hsegment => ?_
      rw [Bool.not_eq_true', List.isEmpty_eq_false_iff]
      rintro rfl
      exact h hsegment
    refine ⟨r.path, parse?_eq_some_iff.2 ?_⟩
    rw [show r.path.toList = r.chars from rfl, hsegments]
    exact ⟨List.splitOn_ne_nil separator r.chars, (List.intercalate_splitOn separator).symm⟩

end AuditTrail.Resource
