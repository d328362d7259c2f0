import Mathlib.Data.List.Infix
import AuditTrail.Text.Search

/-!
# Where a marker occurs first

`cut?` is determined by two facts: the pieces make up the text, and the marker occurs nowhere before
the place of the cut, not even across it.  `InOrder` says that several markers follow one another
somewhere in a text.  Whoever looks for them always takes the first place of each, and misses
nothing by it, because a later place leaves less text for the markers that follow.
-/

namespace AuditTrail.Text

variable {mark s before after : List Char}

theorem prefix_of_dropLast (before mark rest : List Char) :
    before ++ mark.dropLast <+: before ++ mark ++ rest := by
  rw [List.append_assoc, List.prefix_append_right_inj]
  exact (List.dropLast_prefix mark).trans (List.prefix_append mark rest)

theorem not_infix_of_cut? (hmark : mark ≠ []) (h : cut? mark s = some (before, after)) :
    ¬ mark <:+: before ++ mark.dropLast := by
  induction s generalizing before with
  | nil =>
    rw [cut?, if_neg (by simpa using hmark)] at h
    cases h
  | cons c cs ih =>
    rw [cut?] at h
    split at h
    · cases h
      intro hinfix
      have hlength := hinfix.length_le
      have hpositive := List.length_pos_iff.2 hmark
      simp only [List.nil_append, List.length_dropLast] at hlength
      omega
    · rename_i hprefix
      obtain ⟨⟨b, a⟩, hcut, heq⟩ := Option.map_eq_some_iff.1 h
      cases heq
      rw [List.cons_append, List.infix_cons_iff, not_or]
      refine ⟨fun hfront => hprefix ?_, ih hcut⟩
      rw [List.isPrefixOf_iff_prefix, append_of_cut? hcut]
      exact hfront.trans (prefix_of_dropLast (c :: b) mark _)

theorem cut?_of_not_infix (hmark : mark ≠ []) (hfree : ¬ mark <:+: before ++ mark.dropLast) :
    cut? mark (before ++ mark ++ after) = some (before, after) := by
  induction before with
  | nil =>
    obtain ⟨m, ms, rfl⟩ := List.exists_cons_of_ne_nil hmark
    have hprefix : (m :: ms).isPrefixOf (m :: (ms ++ after)) = true := by
      rw [List.isPrefixOf_iff_prefix]
      exact List.prefix_append (m :: ms) after
    rw [List.nil_append, List.cons_append, cut?, if_pos hprefix, ← List.cons_append,
      List.drop_left]
  | cons c cs ih =>
    -- an occurrence that begins before the cut ends before the last character of the mark
    have hprefix : ¬ mark.isPrefixOf (c :: (cs ++ mark ++ after)) = true := by
      rw [List.isPrefixOf_iff_prefix]
      refine fun hfront => hfree (List.IsPrefix.isInfix ?_)
      refine List.prefix_of_prefix_length_le hfront
        (prefix_of_dropLast (c :: cs) mark after) ?_
      simp only [List.length_append, List.length_cons, List.length_dropLast]
      omega
    have hrest : ¬ mark <:+: cs ++ mark.dropLast := fun h => hfree (List.infix_cons h)
    rw [List.cons_append, List.cons_append, cut?, if_neg hprefix, ih hrest]
    rfl

/-- The pieces of a cut are those around the first occurrence of the mark. -/
theorem cut?_eq_some_iff (hmark : mark ≠ []) :
    cut? mark s = some (before, after) ↔
      s = before ++ mark ++ after ∧ ¬ mark <:+: before ++ mark.dropLast := by
  constructor
  · exact fun h => ⟨append_of_cut? h, not_infix_of_cut? hmark h⟩
  · rintro ⟨rfl, hfree⟩
    exact cut?_of_not_infix hmark hfree

theorem cut?_eq_none_iff (hmark : mark ≠ []) : cut? mark s = none ↔ ¬ mark <:+: s := by
  induction s with
  | nil => simp [cut?, hmark]
  | cons c cs ih =>
    rw [cut?, List.infix_cons_iff, ← List.isPrefixOf_iff_prefix]
    split
    · simp_all
    · simp_all

theorem cut?_singleton_iff {a : Char} :
    cut? [a] s = some (before, after) ↔ s = before ++ [a] ++ after ∧ a ∉ before := by
  rw [cut?_eq_some_iff (List.cons_ne_nil a []), List.dropLast_singleton, List.append_nil,
    List.singleton_infix_iff]

/-- A mark of two different characters does not reach across the cut, since its first character is
not its last. -/
theorem cut?_pair_iff {a b : Char} (h : a ≠ b) :
    cut? [a, b] s = some (before, after) ↔
      s = before ++ [a, b] ++ after ∧ ¬ [a, b] <:+: before := by
  have hacross : ¬ [a, b] <:+ before ++ [a] := by
    rintro ⟨t, ht⟩
    have hlast := congrArg List.getLast? ht
    simp only [List.getLast?_append, List.getLast?_cons_cons, List.getLast?_singleton,
      Option.some_or, Option.some.injEq] at hlast
    exact h hlast.symm
  have hdrop : [a, b].dropLast = [a] := rfl
  rw [cut?_eq_some_iff (List.cons_ne_nil a [b]), hdrop, List.infix_concat_iff,
    or_iff_right hacross]

/-- A pair in two texts put together stands in one of them or across the boundary. -/
theorem infix_append_of_pair {a b : Char} {t : List Char} (h : [a, b] <:+: s ++ t) :
    [a, b] <:+: s ∨ [a, b] <:+: t ∨ (s.getLast? = some a ∧ t.head? = some b) := by
  induction s with
  | nil => exact Or.inr (Or.inl h)
  | cons c s ih =>
    rw [List.cons_append, List.infix_cons_iff, List.cons_prefix_cons] at h
    rcases h with ⟨rfl, hb⟩ | h
    · cases s with
      | nil =>
        obtain ⟨rest, rfl⟩ := hb
        exact Or.inr (Or.inr ⟨rfl, rfl⟩)
      | cons d s =>
        rw [List.cons_append, List.cons_prefix_cons] at hb
        obtain ⟨rfl, -⟩ := hb
        exact Or.inl ⟨[], s, rfl⟩
    · rcases ih h with h | h | ⟨hlast, hhead⟩
      · exact Or.inl (List.infix_cons h)
      · exact Or.inr (Or.inl h)
      · refine Or.inr (Or.inr ⟨?_, hhead⟩)
        cases s with
        | nil => cases hlast
        | cons d s => rw [List.getLast?_cons_cons, hlast]

/-- Text in which the mark does not begin is passed over. -/
theorem cut?_append_of_not_infix {a b : Char} {front : List Char} (hfree : ¬ [a, b] <:+: front)
    (hlast : front.getLast? ≠ some a) (rest : List Char) :
    cut? [a, b] (front ++ rest) =
      (cut? [a, b] rest).map fun (before, after) => (front ++ before, after) := by
  induction front with
  | nil => simp
  | cons c front ih =>
    have hprefix : ¬ [a, b].isPrefixOf (c :: (front ++ rest)) = true := by
      rw [List.isPrefixOf_iff_prefix, List.cons_prefix_cons]
      rintro ⟨rfl, hb⟩
      cases front with
      | nil => exact hlast rfl
      | cons d front =>
        rw [List.cons_append, List.cons_prefix_cons] at hb
        obtain ⟨rfl, -⟩ := hb
        exact hfree ⟨[], front, rfl⟩
    have hrest : ¬ [a, b] <:+: front := fun h => hfree (List.infix_cons h)
    have hrestLast : front.getLast? ≠ some a := by
      cases front with
      | nil => simp
      | cons d front => rwa [List.getLast?_cons_cons] at hlast
    rw [List.cons_append, cut?, if_neg hprefix, ih hrest hrestLast]
    cases cut? [a, b] rest <;> rfl

/-! ## Several markers -/

/-- The marks occur one after another, none of them reaching into the next. -/
def InOrder : List (List Char) → List Char → Prop
  | [], _ => True
  | mark :: marks, s => ∃ before after, s = before ++ mark ++ after ∧ InOrder marks after

theorem InOrder.of_suffix {marks : List (List Char)} {t : List Char} (hsuffix : t <:+ s)
    (h : InOrder marks t) : InOrder marks s := by
  cases marks with
  | nil => exact trivial
  | cons mark marks =>
    obtain ⟨front, rfl⟩ := hsuffix
    obtain ⟨before, after, rfl, hrest⟩ := h
    exact ⟨front ++ before, after, by simp only [List.append_assoc], hrest⟩

/-- The cut leaves at least as much as any other occurrence of the mark would. -/
theorem suffix_after_of_cut? {before' after' : List Char} (hmark : mark ≠ [])
    (h : cut? mark s = some (before, after)) (hs : s = before' ++ mark ++ after') :
    after' <:+ after := by
  have hcut : s = before ++ mark ++ after := append_of_cut? h
  have hsuffix : after <:+ s := ⟨_, hcut.symm⟩
  have hsuffix' : after' <:+ s := ⟨_, hs.symm⟩
  refine List.suffix_of_suffix_length_le hsuffix' hsuffix (Nat.le_of_not_lt fun hlt => ?_)
  -- the other occurrence would end before the cut
  refine not_infix_of_cut? hmark h (List.IsInfix.trans ⟨before', [], List.append_nil _⟩
    (List.IsPrefix.isInfix ?_))
  have hlength := congrArg List.length (hcut.symm.trans hs)
  have hpositive := List.length_pos_iff.2 hmark
  simp only [List.length_append] at hlength
  have hother : before' ++ mark <+: s := ⟨after', hs.symm⟩
  have hcutPrefix : before ++ mark.dropLast <+: s := by
    rw [hcut]
    exact prefix_of_dropLast before mark after
  refine List.prefix_of_prefix_length_le hother hcutPrefix ?_
  simp only [List.length_append, List.length_dropLast]
  omega

/-- It is enough to look for the first occurrence of each mark. -/
theorem inOrder_cons_iff {marks : List (List Char)} (hmark : mark ≠ []) :
    InOrder (mark :: marks) s ↔
      ∃ before after, cut? mark s = some (before, after) ∧ InOrder marks after := by
  constructor
  · rintro ⟨before', after', hs, hrest⟩
    cases hcut : cut? mark s with
    | none =>
      rw [cut?_eq_none_iff hmark, hs] at hcut
      exact absurd ⟨before', after', rfl⟩ hcut
    | some pieces =>
      obtain ⟨before, after⟩ := pieces
      exact ⟨before, after, rfl, hrest.of_suffix (suffix_after_of_cut? hmark hcut hs)⟩
  · rintro ⟨before, after, hcut, hrest⟩
    exact ⟨before, after, append_of_cut? hcut, hrest⟩

end AuditTrail.Text
