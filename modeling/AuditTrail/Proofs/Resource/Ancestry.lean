import Mathlib.Data.List.Chain
import Mathlib.Data.List.Nodup
import AuditTrail.Proofs.Resource.Containment

/-!
# The way to the root

The pieces of a resource are the texts between the separators of its path, the empty ones included.
A parent lacks the last piece, so a resource lies within a scope exactly if the pieces of the scope
are the first of its own (`isWithin_iff_pieces`).  What the lineage is and that containment is an
order follow from it (`lineage_agrees`), whether or not a reader would write the paths like that.
-/

namespace AuditTrail.Resource

variable {r p o : Resource}

/-! ## Pieces -/

def pieces (r : Resource) : List (List Char) := r.chars.splitOn separator

theorem pieces_ne_nil (r : Resource) : r.pieces ≠ [] := List.splitOn_ne_nil separator r.chars

theorem eq_of_pieces (h : r.pieces = o.pieces) : r = o := by
  apply ext_chars
  calc
    r.chars = [separator].intercalate r.pieces := (List.intercalate_splitOn separator).symm
    _ = [separator].intercalate o.pieces := by rw [h]
    _ = o.chars := List.intercalate_splitOn separator

theorem pieces_of_parent? (h : r.parent? = some p) : ∃ last, r.pieces = p.pieces ++ [last] := by
  obtain ⟨front, hfront, rfl⟩ := Option.map_eq_some_iff.1 h
  obtain ⟨last, hr, hlast⟩ := exists_append_of_upToLast? hfront
  refine ⟨last, ?_⟩
  rw [pieces, pieces, chars_ofChars, hr, List.splitOn_append_cons_self,
    List.splitOn_eq_singleton hlast]

theorem pieces_of_root (h : r.parent? = none) : r.pieces = [r.chars] := by
  apply List.splitOn_eq_singleton
  exact upToLast?_eq_none_iff.1 (Option.map_eq_none_iff.1 h)

theorem length_pieces (r : Resource) : r.pieces.length = r.chars.count separator + 1 := by
  rw [pieces]
  induction r.chars with
  | nil => rfl
  | cons c cs ih =>
    rw [List.splitOn_cons_eq_if_modifyHead, List.count_cons]
    split
    · rw [List.length_cons, ih]
    · rw [List.length_modifyHead, ih]

/-! ## Containment -/

theorem isWithin_iff_pieces : r.isWithin o = true ↔ o.pieces <+: r.pieces := by
  induction r using lineage.induct with
  | case1 r ih =>
    have hsame : r = o ↔ o.pieces = r.pieces :=
      ⟨fun h => by rw [h], fun h => eq_of_pieces h.symm⟩
    cases hparent : r.parent? with
    | none =>
      rw [isWithin_iff_of_root hparent, hsame]
      constructor
      · intro h
        exact ⟨[], by rw [List.append_nil, h]⟩
      · intro h
        -- a root has one piece, and no resource has none
        refine h.eq_of_length ?_
        have hone := h.length_le
        have hsome := List.length_pos_iff.2 o.pieces_ne_nil
        rw [pieces_of_root hparent, List.length_singleton] at hone ⊢
        omega
    | some p =>
      obtain ⟨last, hlast⟩ := pieces_of_parent? hparent
      rw [isWithin_iff_of_parent? hparent, hsame, ih p hparent, hlast, List.prefix_concat_iff]

theorem isWithin_refl (r : Resource) : r.isWithin r = true := isWithin_iff.2 (Or.inl rfl)

theorem isWithin_antisymm (hro : r.isWithin o = true) (hor : o.isWithin r = true) : r = o := by
  rw [isWithin_iff_pieces] at hro hor
  apply eq_of_pieces
  exact hor.eq_of_length (Nat.le_antisymm hor.length_le hro.length_le)

/-! ## The lineage -/

theorem lineage_of_root (h : r.parent? = none) : r.lineage = [r] := by
  rw [lineage]
  split
  · rfl
  · rename_i p hp
    rw [h] at hp
    cases hp

theorem lineage_of_parent? (h : r.parent? = some p) : r.lineage = r :: p.lineage := by
  rw [lineage]
  split
  · rename_i hroot
    rw [h] at hroot
    cases hroot
  · rename_i q hq
    rw [h, Option.some.injEq] at hq
    rw [hq]

theorem head?_lineage (r : Resource) : r.lineage.head? = some r := by
  rw [lineage, List.head?_cons]

theorem isChain_lineage (r : Resource) :
    r.lineage.IsChain fun inner outer => inner.parent? = some outer := by
  induction r using lineage.induct with
  | case1 r ih =>
    cases hparent : r.parent? with
    | none =>
      rw [lineage_of_root hparent]
      exact .singleton r
    | some p =>
      rw [lineage_of_parent? hparent, List.isChain_cons, head?_lineage]
      refine ⟨fun q hq => ?_, ih p hparent⟩
      rw [← hq]
      exact hparent

theorem exists_getLast?_lineage (r : Resource) :
    ∃ root, r.lineage.getLast? = some root ∧ root.parent? = none := by
  induction r using lineage.induct with
  | case1 r ih =>
    cases hparent : r.parent? with
    | none => exact ⟨r, by rw [lineage_of_root hparent]; rfl, hparent⟩
    | some p =>
      obtain ⟨root, hlast, hroot⟩ := ih p hparent
      refine ⟨root, ?_, hroot⟩
      rw [lineage_of_parent? hparent, List.getLast?_cons, hlast]
      rfl

theorem nodup_lineage (r : Resource) : r.lineage.Nodup := by
  induction r using lineage.induct with
  | case1 r ih =>
    cases hparent : r.parent? with
    | none =>
      rw [lineage_of_root hparent]
      exact List.nodup_singleton r
    | some p =>
      rw [lineage_of_parent? hparent, List.nodup_cons]
      refine ⟨fun hmem => ?_, ih p hparent⟩
      -- a resource has more pieces than whatever is around it
      obtain ⟨last, hlast⟩ := pieces_of_parent? hparent
      have hlength := (isWithin_iff_pieces.1 (mem_lineage_iff.1 hmem)).length_le
      rw [hlast, List.length_append, List.length_singleton] at hlength
      omega

theorem length_lineage (r : Resource) : r.lineage.length = r.pieces.length := by
  induction r using lineage.induct with
  | case1 r ih =>
    cases hparent : r.parent? with
    | none => rw [lineage_of_root hparent, pieces_of_root hparent]; rfl
    | some p =>
      obtain ⟨last, hlast⟩ := pieces_of_parent? hparent
      rw [lineage_of_parent? hparent, hlast, List.length_cons, ih p hparent, List.length_append,
        List.length_singleton]

/-- The lineage is the way from a resource to its root, one parent after another, without a
repetition and with one step for each separator.  It holds the scopes that the resource lies within
and no others, and containment is an order. -/
theorem lineage_agrees :
    (∀ r : Resource, r.lineage.head? = some r ∧
      (r.lineage.IsChain fun inner outer => inner.parent? = some outer) ∧
      (∃ root, r.lineage.getLast? = some root ∧ root.parent? = none) ∧
      r.lineage.Nodup ∧ r.lineage.length = r.chars.count separator + 1) ∧
    (∀ r o : Resource, o ∈ r.lineage ↔ r.isWithin o = true) ∧
    (∀ r : Resource, r.isWithin r = true) ∧
    (∀ r o : Resource, r.isWithin o = true → o.isWithin r = true → r = o) ∧
    ∀ q r o : Resource, q.isWithin r = true → r.isWithin o = true → q.isWithin o = true := by
  refine ⟨fun r => ⟨head?_lineage r, isChain_lineage r, exists_getLast?_lineage r, nodup_lineage r,
    ?_⟩, fun _ _ => mem_lineage_iff, isWithin_refl, fun _ _ => isWithin_antisymm,
    fun _ _ _ => isWithin_trans⟩
  rw [length_lineage, length_pieces]

namespace Doubled

/-- A table whose name begins with a separator. -/
def leaf : Resource := .table "ks" "/t"

/-- The keyspace around it, whose name ends in one. -/
def around : Resource := .keyspace "ks/"

end Doubled

open Doubled in
theorem lineage_agrees_doubled :
    leaf.lineage.length = 4 ∧ around ∈ leaf.lineage ∧ leaf.isWithin data = true ∧
      table "ks" "" = around := by
  obtain ⟨hwalk, hmem, -, hantisymm, htrans⟩ := lineage_agrees
  obtain ⟨-, -, -, -, hlength⟩ := hwalk leaf
  have hleaf : leaf.isWithin around = true := by decide +kernel
  have haround : around.isWithin data = true := by decide +kernel
  have hsame : (table "ks" "").isWithin around = true := by decide +kernel
  have hsame' : around.isWithin (table "ks" "") = true := by decide +kernel
  refine ⟨?_, (hmem _ _).2 hleaf, htrans _ _ _ hleaf haround, hantisymm _ _ hsame hsame'⟩
  rw [hlength]
  decide +kernel

end AuditTrail.Resource
