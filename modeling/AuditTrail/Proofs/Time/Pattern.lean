import Mathlib.Data.List.Pairwise
import AuditTrail.Time.Pattern

/-!
# Which patterns there are

A pattern is plain characters and specifiers, one after another (`Reads`).  No spelling of a
specifier begins another one, so a pattern is read in one way only and the reader finds it
(`items?_eq_some_iff`).
-/

namespace AuditTrail.Time.Pattern

/-- The pattern is written out of plain characters and specifiers, and stands for the items. -/
inductive Reads : List Char → List Item → Prop
  | nil : Reads [] []
  | text {c : Char} {cs : List Char} {items : List Item} (hc : c ≠ '%') (hrest : Reads cs items) :
    Reads (c :: cs) (.literal [c] :: items)
  | specifier {spelling cs : List Char} {its items : List Item}
      (hmem : (spelling, its) ∈ specifiers) (hrest : Reads cs items) :
    Reads ('%' :: (spelling ++ cs)) (its ++ items)

/-- The text is not empty, and each `%` in it begins a specifier. -/
def IsPattern (p : String) : Prop := p ≠ "" ∧ ∃ items, Reads p.toList items

variable {pattern spelling s rest : List Char} {its items : List Item}

/-- Neither of the two spellings begins the other. -/
def Apart (a b : List Char × List Item) : Prop := ¬ a.1 <+: b.1 ∧ ¬ b.1 <+: a.1

instance : DecidableRel Apart := fun _ _ => inferInstanceAs (Decidable (_ ∧ _))

instance : Std.Symm Apart where
  symm _ _ h := ⟨h.2, h.1⟩

theorem pairwise_apart : specifiers.Pairwise Apart := by decide +kernel

theorem eq_of_prefix {a b : List Char × List Item} (ha : a ∈ specifiers) (hb : b ∈ specifiers)
    (has : a.1 <+: s) (hbs : b.1 <+: s) : a = b := by
  by_contra hne
  have hapart : Apart a b := pairwise_apart.forall ha hb hne
  rcases List.prefix_or_prefix_of_prefix has hbs with h | h
  · exact hapart.1 h
  · exact hapart.2 h

theorem specifier?_eq_some_iff :
    specifier? s = some (its, rest) ↔
      ∃ spelling, (spelling, its) ∈ specifiers ∧ s = spelling ++ rest := by
  have hsound {its : List Item} {rest : List Char} (h : specifier? s = some (its, rest)) :
      ∃ spelling, (spelling, its) ∈ specifiers ∧ s = spelling ++ rest := by
    obtain ⟨⟨spelling, its'⟩, hmem, hs⟩ := List.exists_of_findSome?_eq_some h
    simp only [Option.ite_none_right_eq_some, Option.some.injEq, Prod.mk.injEq] at hs
    obtain ⟨hbegins, rfl, rfl⟩ := hs
    obtain ⟨rest, rfl⟩ := List.isPrefixOf_iff_prefix.1 hbegins
    exact ⟨spelling, hmem, by rw [List.drop_left]⟩
  refine ⟨hsound, ?_⟩
  rintro ⟨spelling, hmem, rfl⟩
  cases hread : specifier? (spelling ++ rest) with
  | none =>
    have hnone := List.findSome?_eq_none_iff.1 hread _ hmem
    simp [List.isPrefixOf_iff_prefix] at hnone
  | some found =>
    obtain ⟨its', rest'⟩ := found
    obtain ⟨spelling', hmem', happend⟩ := hsound hread
    have heq := eq_of_prefix hmem hmem' ⟨rest, rfl⟩ ⟨rest', happend.symm⟩
    obtain ⟨rfl, rfl⟩ := Prod.mk.inj heq
    rw [List.append_cancel_left happend]

theorem items?_cons_of_ne {c : Char} (hc : c ≠ '%') (cs : List Char) :
    items? (c :: cs) = (items? cs).map (.literal [c] :: ·) := by
  rw [items?, if_neg hc]

theorem items?_specifier (hmem : (spelling, its) ∈ specifiers) (cs : List Char) :
    items? ('%' :: (spelling ++ cs)) = (items? cs).map (its ++ ·) := by
  have hread : specifier? (spelling ++ cs) = some (its, cs) :=
    specifier?_eq_some_iff.2 ⟨spelling, hmem, rfl⟩
  rw [items?, if_pos rfl]
  split
  · rename_i its' cs' hread'
    rw [hread] at hread'
    cases hread'
    rfl
  · rename_i hread'
    rw [hread] at hread'
    cases hread'

theorem items?_eq_some_iff : items? pattern = some items ↔ Reads pattern items := by
  constructor
  · intro h
    fun_induction items? pattern generalizing items with
    | case1 =>
      cases h
      exact .nil
    | case2 cs its rest hread ih =>
      obtain ⟨items, hitems, rfl⟩ := Option.map_eq_some_iff.1 h
      obtain ⟨spelling, hmem, rfl⟩ := specifier?_eq_some_iff.1 hread
      exact .specifier hmem (ih hitems)
    | case3 => cases h
    | case4 c cs hc ih =>
      obtain ⟨items, hitems, rfl⟩ := Option.map_eq_some_iff.1 h
      exact .text hc (ih hitems)
  · intro h
    induction h with
    | nil => rw [items?]
    | text hc _ ih => rw [items?_cons_of_ne hc, ih, Option.map_some]
    | specifier hmem _ ih => rw [items?_specifier hmem, ih, Option.map_some]

end AuditTrail.Time.Pattern
