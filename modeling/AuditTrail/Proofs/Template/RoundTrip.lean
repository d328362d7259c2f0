import AuditTrail.Proofs.Template.Lexing

/-!
# Reading undoes writing

A list of instructions that is `Canonical` is read back from the text that it writes out to.  The
conditions look at one instruction and at its neighbour only.  Markers that are formed across two
instructions are the whole difficulty: of all pairs, only literal text that ends in `$` before a
block writes one that was not meant.
-/

namespace AuditTrail.Template

open Text Instruction

namespace Instruction

instance : DecidablePred WellFormed
  | literal text => inferInstanceAs (Decidable (text ≠ []))
  | field name => inferInstanceAs (Decidable ('}' ∉ name))
  | conditional before name after =>
    inferInstanceAs (Decidable (¬ fieldOpen <:+: before ∧ '}' ∉ name ∧ ¬ blockClose <:+: after))

/-- No opening marker stands in literal text. -/
def Unmarked : Instruction → Prop
  | literal text => ¬ fieldOpen <:+: text ∧ ¬ blockOpen <:+: text
  | _ => True

instance : DecidablePred Unmarked
  | literal text =>
    inferInstanceAs (Decidable (¬ fieldOpen <:+: text ∧ ¬ blockOpen <:+: text))
  | field _ | conditional _ _ _ => inferInstanceAs (Decidable True)

/-- Whether `j` may directly follow `i`. -/
def MayPrecede : Instruction → Instruction → Prop
  | literal _, literal _ => False
  | literal text, conditional _ _ _ => text.getLast? ≠ some '$'
  | _, _ => True

instance : DecidableRel MayPrecede
  | literal _, literal _ => inferInstanceAs (Decidable False)
  | literal text, conditional _ _ _ => inferInstanceAs (Decidable (text.getLast? ≠ some '$'))
  | literal _, field _ | field _, _ | conditional _ _ _, _ => inferInstanceAs (Decidable True)

theorem exists_text_of_isLiteral {i : Instruction} (h : i.isLiteral = true) :
    ∃ text, i = literal text := by
  cases i with
  | literal text => exact ⟨text, rfl⟩
  | field name => cases h
  | conditional before name after => cases h

end Instruction

/-- Each instruction is well formed, no literal text has an opening marker in it, and literal text
is followed neither by more of it nor, after a dollar sign, by a block. -/
structure Canonical (is : List Instruction) : Prop where
  wellFormed : ∀ i ∈ is, i.WellFormed
  unmarked : ∀ i ∈ is, i.Unmarked
  adjacent : is.IsChain MayPrecede

variable {i : Instruction} {is : List Instruction}

theorem Canonical.tail (h : Canonical (i :: is)) : Canonical is where
  wellFormed j hj := h.wellFormed j (List.mem_cons_of_mem i hj)
  unmarked j hj := h.unmarked j (List.mem_cons_of_mem i hj)
  adjacent := (List.isChain_cons.1 h.adjacent).2

/-- What follows literal text opens with a dollar sign, or with a brace when the text does not end
in a dollar sign. -/
theorem opening_after_text {text rest : List Char} {c : Char}
    (h : (literal text :: is).IsChain MayPrecede) (hc : writtenAll is = c :: rest) :
    c = '$' ∨ c = '{' ∧ text.getLast? ≠ some '$' := by
  cases is with
  | nil => cases hc
  | cons j js =>
    have hj : MayPrecede (literal text) j := (List.isChain_cons_cons.1 h).1
    cases j with
    | literal text' => exact hj.elim
    | field name =>
      cases hc
      exact Or.inl rfl
    | conditional before name after =>
      cases hc
      exact Or.inr ⟨rfl, hj⟩

theorem plain_of_canonical {text : List Char} (h : Canonical (literal text :: is)) :
    Plain text (writtenAll is) := by
  obtain ⟨hfield, hblock⟩ : ¬ fieldOpen <:+: text ∧ ¬ blockOpen <:+: text :=
    h.unmarked _ List.mem_cons_self
  intro front back hsplit hback
  match back, hback with
  | [c], _ =>
    -- the marker would reach into the next instruction
    refine ⟨?_, ?_⟩
    · rintro ⟨body, hbody, -⟩
      obtain ⟨rfl, hnext⟩ : c = '$' ∧ writtenAll is = '{' :: body := List.cons.inj hbody
      rcases opening_after_text h.adjacent hnext with hc | ⟨-, hlast⟩
      · exact absurd hc (by decide)
      · rw [hsplit, List.getLast?_concat] at hlast
        exact hlast rfl
    · rintro ⟨body, hbody, -⟩
      obtain ⟨-, hnext⟩ : c = '{' ∧ writtenAll is = '?' :: body := List.cons.inj hbody
      rcases opening_after_text h.adjacent hnext with hc | ⟨hc, -⟩
      · exact absurd hc (by decide)
      · exact absurd hc (by decide)
  | c :: d :: back, _ =>
    have hpair : [c, d] <:+: text := ⟨front, back, by rw [hsplit, List.append_assoc]; rfl⟩
    refine ⟨?_, ?_⟩
    · rintro ⟨body, hbody, -⟩
      cases hbody
      exact hfield hpair
    · rintro ⟨body, hbody, -⟩
      cases hbody
      exact hblock hpair

theorem maximal_of_canonical (h : Canonical is) : Maximal is := by
  induction is with
  | nil => exact maximal_nil
  | cons i is ih =>
    refine maximal_cons_iff.2 ⟨h.wellFormed i List.mem_cons_self, ?_, ?_, ih h.tail⟩
    · rintro hi ⟨j, hj, hkind⟩
      have hadjacent := (List.isChain_cons.1 h.adjacent).1 j hj
      obtain ⟨text, rfl⟩ := exists_text_of_isLiteral hi
      obtain ⟨text', rfl⟩ := exists_text_of_isLiteral hkind
      exact hadjacent
    · rintro text rfl
      exact plain_of_canonical h

/-- A canonical list is read back from what it writes out to. -/
theorem lex_writtenAll (h : Canonical is) : lex (writtenAll is) = is :=
  lex_eq_iff.2 ⟨rfl, maximal_of_canonical h⟩

/-- Markers are formed at every boundary: before a field, before a block, and before the three
markers inside a block. -/
def crowded : List Instruction :=
  [literal ['a', '$'], field ['$', '{'], literal ['{'],
    conditional ['{', '$'] ['B', '$', '{'] ['?', 'c', '?'], conditional [] [] [], field [],
    literal ['?', '}']]

theorem lex_writtenAll_crowded : Canonical crowded ∧ lex (writtenAll crowded) = crowded := by
  have h : Canonical crowded := ⟨by decide, by decide, by decide⟩
  exact ⟨h, lex_writtenAll h⟩

end AuditTrail.Template
