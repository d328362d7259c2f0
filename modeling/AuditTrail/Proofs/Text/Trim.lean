import AuditTrail.Text.Blank

/-!
# Blanks around a text

A text that neither begins nor ends with a blank is what `trim` leaves of it, whatever blanks are
put before and after it.
-/

namespace AuditTrail.Text

variable {before after s : List Char}

theorem trimStart_append (h : ∀ c ∈ before, isBlank c = true) :
    trimStart (before ++ s) = trimStart s :=
  List.dropWhile_append_of_pos h

theorem trimEnd_append (h : ∀ c ∈ after, isBlank c = true) :
    trimEnd (s ++ after) = trimEnd s := by
  have hreverse : ∀ c ∈ after.reverse, isBlank c = true := by simpa using h
  unfold trimEnd
  rw [List.reverse_append, List.dropWhile_append_of_pos hreverse]

theorem trimStart_cons {c : Char} (h : isBlank c = false) : trimStart (c :: s) = c :: s :=
  List.dropWhile_cons_of_neg (by simp [h])

theorem trimEnd_concat {c : Char} (h : isBlank c = false) : trimEnd (s ++ [c]) = s ++ [c] := by
  unfold trimEnd
  rw [List.reverse_append, List.reverse_singleton, List.singleton_append,
    List.dropWhile_cons_of_neg (by simp [h]), List.reverse_cons, List.reverse_reverse]

/-- The text is not empty, and its first and its last character are no blanks. -/
def IsTrimmed (s : List Char) : Prop :=
  (∃ c rest, s = c :: rest ∧ isBlank c = false) ∧ ∃ front c, s = front ++ [c] ∧ isBlank c = false

theorem trim_of_isTrimmed (hs : IsTrimmed s) (hbefore : ∀ c ∈ before, isBlank c = true)
    (hafter : ∀ c ∈ after, isBlank c = true) : trim (before ++ s ++ after) = s := by
  obtain ⟨⟨c, rest, hfirst, hc⟩, front, d, hlast, hd⟩ := hs
  have hstart : trimStart (before ++ s ++ after) = s ++ after := by
    rw [List.append_assoc, trimStart_append hbefore, hfirst, List.cons_append, trimStart_cons hc]
  rw [trim, hstart, trimEnd_append hafter, hlast, trimEnd_concat hd]

/-! ## Digits and letters -/

theorem isBlank_of_isDigit {c : Char} (hc : c.isDigit = true) : isBlank c = false := by
  have hrange : 48 ≤ c.toNat ∧ c.toNat ≤ 57 := by
    simp only [Char.isDigit, Bool.and_eq_true, decide_eq_true_eq] at hc
    exact hc
  simp [isBlank, blankCodes]
  omega

theorem toUpper_of_isBlank {c : Char} (hc : isBlank c = true) : c.toUpper = c := by
  have hlow : ¬ ('a'.val ≤ c.val ∧ c.val ≤ 'z'.val) := by
    rintro ⟨hfrom, hto⟩
    have hfrom' : 97 ≤ c.toNat := hfrom
    have hto' : c.toNat ≤ 122 := hto
    simp [isBlank, blankCodes] at hc
    omega
  exact dif_neg hlow

/-- Letters are no blanks, so capitals begin and end as the text does. -/
theorem isTrimmed_of_map_toUpper (hs : IsTrimmed (s.map Char.toUpper)) :
    IsTrimmed s := by
  have hblank {c d : Char} (h : c.toUpper = d) (hd : isBlank d = false) : isBlank c = false := by
    cases hc : isBlank c with
    | false => rfl
    | true =>
      rw [toUpper_of_isBlank hc] at h
      rw [h, hd] at hc
      cases hc
  obtain ⟨⟨d, rest, hfirst, hd⟩, front, e, hlast, he⟩ := hs
  obtain ⟨c, rest', rfl, hc, -⟩ := List.map_eq_cons_iff.1 hfirst
  obtain ⟨front', last, hsplit, -, hmap⟩ := List.map_eq_append_iff.1 hlast
  obtain ⟨c', rfl, hc'⟩ := List.map_eq_singleton_iff.1 hmap
  exact ⟨⟨c, rest', rfl, hblank hc hd⟩, front', c', hsplit, hblank hc' he⟩

end AuditTrail.Text
