import AuditTrail.Resource.Lineage

/-!
# Lineage and containment

The lineage of a resource is found by walking up one separator at a time, and containment is tested
on the two paths at once.  One step of the walk is `isWithin_iff_of_parent?`: a resource lies
within a scope when it is the scope or its parent lies within it.  By it the two agree.
-/

namespace AuditTrail.Resource

theorem upToLast?_eq_none_iff {cs : List Char} : upToLast? cs = none ↔ separator ∉ cs := by
  induction cs with
  | nil => simp [upToLast?]
  | cons c cs ih =>
    rw [upToLast?, List.mem_cons]
    cases hcs : upToLast? cs with
    | some front =>
      have hmem : separator ∈ cs := by
        refine Classical.byContradiction fun hnot => ?_
        rw [ih.2 hnot] at hcs
        cases hcs
      simp [hmem]
    | none =>
      have hnot : separator ∉ cs := ih.1 hcs
      by_cases hc : c = separator
      · simp [hc]
      · simp [hc, hnot, Ne.symm hc]

/-- The text before the last separator, the separator and a text without one make up the whole. -/
theorem exists_append_of_upToLast? {cs front : List Char} (h : upToLast? cs = some front) :
    ∃ last, cs = front ++ separator :: last ∧ separator ∉ last := by
  induction cs generalizing front with
  | nil => cases h
  | cons c cs ih =>
    rw [upToLast?] at h
    split at h
    · rename_i f hf
      cases h
      obtain ⟨last, hcs, hlast⟩ := ih hf
      exact ⟨last, by rw [hcs]; rfl, hlast⟩
    · rename_i hnone
      split at h
      · rename_i hc
        cases h
        exact ⟨cs, by rw [hc]; rfl, upToLast?_eq_none_iff.1 hnone⟩
      · cases h

theorem isWithin_iff {r o : Resource} :
    r.isWithin o = true ↔ r = o ∨ o.chars ++ [separator] <+: r.chars := by
  simp [isWithin, List.isPrefixOf_iff_prefix]

/-- Where the last segment holds no separator, a scope that is not all of what stands before it
lies within what stands before it. -/
theorem prefix_append_separator_iff {front last cs : List Char} (hlast : separator ∉ last) :
    cs ++ [separator] <+: front ++ separator :: last ↔
      cs = front ∨ cs ++ [separator] <+: front := by
  induction front generalizing cs with
  | nil =>
    cases cs with
    | nil => simp
    | cons d cs =>
      have hnot : ¬ cs ++ [separator] <+: last := by
        rintro ⟨rest, rfl⟩
        exact hlast (by simp)
      simp [List.cons_prefix_cons, hnot]
  | cons c front ih =>
    cases cs with
    | nil => simp [List.cons_prefix_cons]
    | cons d cs =>
      rw [List.cons_append, List.cons_append, List.cons_prefix_cons,
        List.cons_prefix_cons, ih, List.cons.injEq]
      constructor
      · rintro ⟨hd, h | h⟩
        · exact Or.inl ⟨hd, h⟩
        · exact Or.inr ⟨hd, h⟩
      · rintro (⟨hd, h⟩ | ⟨hd, h⟩)
        · exact ⟨hd, Or.inl h⟩
        · exact ⟨hd, Or.inr h⟩

theorem isWithin_iff_of_parent? {r p o : Resource} (h : r.parent? = some p) :
    r.isWithin o = true ↔ r = o ∨ p.isWithin o = true := by
  obtain ⟨front, hfront, rfl⟩ := Option.map_eq_some_iff.1 h
  obtain ⟨last, hr, hlast⟩ := exists_append_of_upToLast? hfront
  rw [isWithin_iff, isWithin_iff, hr, prefix_append_separator_iff hlast, chars_ofChars]
  have heq : ofChars front = o ↔ o.chars = front := by
    constructor
    · rintro rfl
      exact chars_ofChars front
    · rintro rfl
      exact ofChars_chars o
  rw [heq]

theorem isWithin_iff_of_root {r o : Resource} (h : r.parent? = none) :
    r.isWithin o = true ↔ r = o := by
  have hnot : separator ∉ r.chars := upToLast?_eq_none_iff.1 (Option.map_eq_none_iff.1 h)
  rw [isWithin_iff]
  constructor
  · rintro (hro | ⟨rest, hrest⟩)
    · exact hro
    · refine absurd ?_ hnot
      rw [← hrest]
      simp
  · exact Or.inl

theorem mem_lineage_iff {r o : Resource} : o ∈ r.lineage ↔ r.isWithin o = true := by
  induction r using lineage.induct with
  | case1 r ih =>
    rw [lineage, List.mem_cons]
    split
    · rename_i hroot
      rw [isWithin_iff_of_root hroot]
      simp [eq_comm]
    · rename_i p hp
      rw [isWithin_iff_of_parent? hp, ih p hp, eq_comm]

/-- What lies within a resource lies within every scope around it. -/
theorem isWithin_trans {q r o : Resource} (hqr : q.isWithin r = true) (hro : r.isWithin o = true) :
    q.isWithin o = true := by
  rw [isWithin_iff] at hqr hro ⊢
  rcases hqr with rfl | hqr
  · exact hro
  · rcases hro with rfl | hro
    · exact Or.inr hqr
    · exact Or.inr (hro.trans ((List.prefix_append r.chars [separator]).trans hqr))

end AuditTrail.Resource
