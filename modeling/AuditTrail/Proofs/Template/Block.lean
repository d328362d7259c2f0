import AuditTrail.Proofs.Template.Lexing

/-!
# Blocks that are closed before a field

A block without a field is text.  The search for its field does not stop at its end, though, so
the block is text only as long as no field and no further end of a block come after it
(`Completes`).  Otherwise it is read as a block opened right after it would be, and all that it
holds goes to the first text of that block (`instruction?_closedBlock`).
-/

namespace AuditTrail.Template

open Text Instruction

variable {f inner rest s : List Char} {i : Instruction} {offset : Nat}

/-- A block that is closed after `inner`. -/
def closedBlock (inner : List Char) : List Char := blockOpen ++ inner ++ blockClose

/-- A field and then the end of a block follow somewhere. -/
def Completes (rest : List Char) : Prop := InOrder [fieldOpen, fieldClose, blockClose] rest

namespace Instruction

/-- Puts text before the first text of a block. -/
def widened (front : List Char) : Instruction → Instruction
  | conditional before name after => conditional (front ++ before) name after
  | i => i

/-- A reading with text before it.  Literal text that the reading begins with becomes a part of one
with it. -/
def afterText (text : List Char) : List Instruction → List Instruction
  | literal first :: is => literal (text ++ first) :: is
  | is => flush text.reverse ++ is

end Instruction

/-! ## One block -/

theorem not_infix_closedBlock (hinner : ¬ fieldOpen <:+: inner) :
    ¬ fieldOpen <:+: closedBlock inner := by
  intro h
  rcases infix_append_of_pair h with h | h | ⟨-, h⟩
  · rcases infix_append_of_pair h with h | h | ⟨h, -⟩
    · exact absurd h (by decide)
    · exact hinner h
    · exact absurd h (by decide)
  · exact absurd h (by decide)
  · exact absurd h (by decide)

/-- Text of a block after its beginning holds no field either, and does not end as one begins. -/
theorem of_suffix_closedBlock (hinner : ¬ fieldOpen <:+: inner) {back : List Char}
    (hback : back <:+ closedBlock inner) : ¬ fieldOpen <:+: back ∧ back.getLast? ≠ some '$' := by
  refine ⟨fun h => not_infix_closedBlock hinner (h.trans hback.isInfix), fun h => ?_⟩
  obtain ⟨front, hsplit⟩ := hback
  have hlast := congrArg List.getLast? hsplit
  rw [List.getLast?_append, h, closedBlock, List.getLast?_append] at hlast
  simp [blockClose] at hlast

theorem cut?_fieldOpen_append (hinner : ¬ fieldOpen <:+: inner) {back : List Char}
    (hback : back <:+ closedBlock inner) (rest : List Char) :
    cut? fieldOpen (back ++ rest) =
      (cut? fieldOpen rest).map fun (before, after) => (back ++ before, after) := by
  obtain ⟨hfree, hlast⟩ := of_suffix_closedBlock hinner hback
  exact cut?_append_of_not_infix hfree hlast rest

/-- What closes a block early is no obstacle to the search for its field. -/
theorem instruction?_closedBlock (hinner : ¬ fieldOpen <:+: inner) (rest : List Char) :
    instruction? (closedBlock inner ++ rest) =
      (instruction? (blockOpen ++ rest)).map fun (i, tail) =>
        (i.widened (inner ++ blockClose), tail) := by
  have hopen (t : List Char) : instruction? (blockOpen ++ t) = conditional? (blockOpen ++ t) := by
    rw [instruction?, field?_of_blockOpen, Option.none_or]
  have hread (t : List Char) : conditional? (blockOpen ++ t) = (cut? fieldOpen t).bind fun p =>
      (cut? fieldClose p.2).bind fun q => (cut? blockClose q.2).bind fun r =>
        some (conditional p.1 q.1 r.1, r.2) := rfl
  have hsuffix : inner ++ blockClose <:+ closedBlock inner :=
    ⟨blockOpen, by simp only [closedBlock, List.append_assoc]⟩
  have hwhole : closedBlock inner ++ rest = blockOpen ++ (inner ++ blockClose ++ rest) := by
    simp only [closedBlock, List.append_assoc]
  rw [hwhole, hopen, hopen, hread, hread, cut?_fieldOpen_append hinner hsuffix]
  cases cut? fieldOpen rest with
  | none => rfl
  | some p =>
    simp only [Option.map_some, Option.bind_some]
    cases cut? fieldClose p.2 with
    | none => rfl
    | some q =>
      simp only [Option.bind_some]
      cases cut? blockClose q.2 <;> rfl

theorem instruction?_blockOpen_eq_none_iff :
    instruction? (blockOpen ++ rest) = none ↔ ¬ Completes rest := by
  rw [instruction?_eq_none_iff]
  constructor
  · rintro ⟨-, hblock⟩ hcompletes
    exact hblock ⟨rest, rfl, hcompletes⟩
  · intro hnot
    refine ⟨?_, ?_⟩
    · rintro ⟨body, hbody, -⟩
      cases hbody
    · rintro ⟨body, hbody, hcompletes⟩
      rw [List.append_cancel_left hbody] at hnot
      exact hnot hcompletes

/-- A block that is closed early is read all the same when a field and a further end follow. -/
theorem exists_instruction?_of_completes (hinner : ¬ fieldOpen <:+: inner)
    (h : Completes rest) :
    ∃ before name after tail, instruction? (closedBlock inner ++ rest) =
      some (conditional (inner ++ blockClose ++ before) name after, tail) := by
  cases hread : instruction? (blockOpen ++ rest) with
  | none => exact absurd h (instruction?_blockOpen_eq_none_iff.1 hread)
  | some p =>
    obtain ⟨i, tail⟩ := p
    have hi := instruction?_closedBlock hinner rest
    rw [hread, Option.map_some] at hi
    obtain ⟨hwritten, -, hkind⟩ := instruction?_eq_some_iff.1 hread
    cases i with
    | literal text => cases hkind
    | field name => cases hwritten
    | conditional before name after => exact ⟨before, name, after, tail, hi⟩

theorem completes_of_append (hinner : ¬ fieldOpen <:+: inner) {back : List Char}
    (hback : back <:+ closedBlock inner) (h : Completes (back ++ rest)) : Completes rest := by
  obtain ⟨before, inField, hcut, hrest⟩ := (inOrder_cons_iff (by decide)).1 h
  rw [cut?_fieldOpen_append hinner hback, Option.map_eq_some_iff] at hcut
  obtain ⟨⟨before', inField'⟩, hcut, heq⟩ := hcut
  cases heq
  exact (inOrder_cons_iff (by decide)).2 ⟨before', inField, hcut, hrest⟩

/-- Nothing begins in the block, not even with what follows it. -/
theorem plain_closedBlock (hinner : ¬ fieldOpen <:+: inner) (h : ¬ Completes rest) :
    Plain (closedBlock inner) rest := by
  intro front back hsplit hback
  have hsuffix : back <:+ closedBlock inner := ⟨front, hsplit.symm⟩
  refine ⟨?_, ?_⟩
  · rintro ⟨body, hbody, -⟩
    have hcut := cut?_fieldOpen_append hinner hsuffix rest
    have hhere : cut? fieldOpen (fieldOpen ++ body) = some ([], body) :=
      (cut?_pair_iff (by decide)).2 ⟨rfl, by simp⟩
    rw [hbody, hhere, eq_comm, Option.map_eq_some_iff] at hcut
    obtain ⟨p, -, hp⟩ := hcut
    exact hback (List.append_eq_nil_iff.1 (Prod.mk.inj hp).1).1
  · rintro ⟨body, hbody, hcompletes⟩
    match back, hbody with
    | [c], hbody =>
      -- the block ends in a brace that closes, so it does not end as a block begins
      have hlast : (closedBlock inner).getLast? = some c := by
        rw [hsplit, List.getLast?_concat]
      rw [closedBlock, List.getLast?_append] at hlast
      cases hlast
      cases hbody
    | c :: d :: back, hbody =>
      obtain ⟨-, -, rfl⟩ : c = '{' ∧ d = '?' ∧ back ++ rest = body := by
        simpa [blockOpen] using hbody
      refine h (completes_of_append hinner (List.IsSuffix.trans ⟨[c, d], rfl⟩ hsuffix) hcompletes)

/-! ## The reading after a block -/

@[simp] theorem writtenAll_afterText (text : List Char) (is : List Instruction) :
    writtenAll (afterText text is) = text ++ writtenAll is := by
  unfold afterText
  split <;> simp [written]

theorem eq_literal_cons_or_not_opensWithText (is : List Instruction) :
    (∃ first is', is = literal first :: is') ∨ ¬ OpensWithText is := by
  match is with
  | literal first :: is' => exact Or.inl ⟨first, is', rfl⟩
  | [] | field _ :: _ | conditional _ _ _ :: _ => exact Or.inr (by simp [OpensWithText, isLiteral])

theorem afterText_of_not_opensWithText {is : List Instruction} (h : ¬ OpensWithText is)
    (text : List Char) : afterText text is = flush text.reverse ++ is := by
  unfold afterText
  split
  · exact absurd ⟨_, rfl, rfl⟩ h
  · rfl

theorem afterText_afterText (text text' : List Char) (is : List Instruction) :
    afterText text (afterText text' is) = afterText (text ++ text') is := by
  rcases eq_literal_cons_or_not_opensWithText is with ⟨first, is, rfl⟩ | h
  · simp [afterText]
  · rw [afterText_of_not_opensWithText h, afterText_of_not_opensWithText h]
    by_cases htext' : text' = []
    · rw [htext', List.append_nil]
      exact afterText_of_not_opensWithText h text
    · have hne : text ++ text' ≠ [] := fun hnil => htext' (List.append_eq_nil_iff.1 hnil).2
      rw [flush_reverse htext', flush_reverse hne]
      rfl

/-- Text that is held back goes before the reading of what follows. -/
theorem scan_eq_afterText (pending s : List Char) :
    scan pending s = afterText pending.reverse (lex s) := by
  unfold lex
  induction s generalizing pending with
  | nil => simp [scan, afterText, flush]
  | cons c cs ih =>
    cases h : instruction? (c :: cs) with
    | none =>
      rw [scan_of_none h, scan_of_none h, ih, ih [c], afterText_afterText, List.reverse_cons,
        List.reverse_singleton]
    | some p =>
      rw [scan_of_instruction? h, scan_of_instruction? h]
      have hnot := not_opensWithText_of_instruction? h (scan [] p.2)
      exact ((afterText_of_not_opensWithText hnot _).trans (by rw [List.reverse_reverse])).symm

/-! ## Where blocks are closed early -/

/-- A scan of `f` comes to a block that is closed before a field. -/
def ClosesEarly (f : List Char) (offset : Nat) (inner rest : List Char) : Prop :=
  ¬ fieldOpen <:+: inner ∧ Reaches f offset (closedBlock inner ++ rest)

/-- The block at this place is literal text, and what follows it is read as it is by itself. -/
def KeptAsText (f : List Char) (offset : Nat) (block rest : List Char) : Prop :=
  ∃ is text, bytes (writtenAll is ++ text) = offset ∧
    lex f = is ++ afterText (text ++ block) (lex rest)

theorem keptAsText_of_not_completes (h : ClosesEarly f offset inner rest)
    (hnot : ¬ Completes rest) : KeptAsText f offset (closedBlock inner) rest := by
  obtain ⟨⟨front, hf, hoffset⟩, is, pending, hlex⟩ := split_of_reaches h.2
  rw [scan_of_plain (plain_closedBlock h.1 hnot), scan_eq_afterText, List.reverse_append,
    List.reverse_reverse] at hlex
  refine ⟨is, pending.reverse, ?_, hlex⟩
  -- what is written out in front of the block is what has been read
  have hwritten : writtenAll (lex f) = f := (lex_eq_iff.1 rfl).1
  have hrest : writtenAll (lex rest) = rest := (lex_eq_iff.1 rfl).1
  rw [hlex, writtenAll_append, writtenAll_afterText, hrest, List.append_assoc, hf,
    ← List.append_assoc] at hwritten
  rw [List.append_cancel_right hwritten, hoffset]

theorem not_completes_of_keptAsText (h : KeptAsText f offset (closedBlock inner) rest) :
    ¬ Completes rest := by
  intro hcompletes
  obtain ⟨is, text, -, hlex⟩ := h
  obtain ⟨more, is', hrest, hkept⟩ : ∃ more is', rest = more ++ writtenAll is' ∧
      afterText (text ++ closedBlock inner) (lex rest) =
        literal (text ++ (closedBlock inner ++ more)) :: is' := by
    have hwritten : writtenAll (lex rest) = rest := (lex_eq_iff.1 rfl).1
    rcases eq_literal_cons_or_not_opensWithText (lex rest) with ⟨first, is', hfirst⟩ | hopens
    · refine ⟨first, is', ?_, ?_⟩
      · rw [← hwritten, hfirst, writtenAll_cons, written]
      · rw [hfirst, afterText, List.append_assoc]
    · refine ⟨[], lex rest, hwritten.symm, ?_⟩
      have hne : text ++ closedBlock inner ≠ [] := by simp [closedBlock, blockOpen]
      rw [afterText_of_not_opensWithText hopens, flush_reverse hne, List.append_nil]
      rfl
  have hmaximal : Maximal (lex f) := (lex_eq_iff.1 rfl).2
  have hplain := hmaximal.plain is _ is' (hlex.trans (by rw [hkept]))
  refine (hplain text _ rfl (by simp [closedBlock, blockOpen])).2
    ⟨inner ++ blockClose ++ rest, ?_, hcompletes.of_suffix ⟨inner ++ blockClose, rfl⟩⟩
  rw [hrest]
  simp only [closedBlock, List.append_assoc]

theorem isLiteral_of_mem_flush {pending : List Char} (hi : i ∈ flush pending) :
    i.isLiteral = true := by
  cases pending with
  | nil => cases hi
  | cons c pending =>
    rw [List.mem_singleton.1 hi]
    rfl

/-- The scan comes to every field and every block that it reads. -/
theorem exists_reaches_of_mem_scan {pending : List Char} (h : Reaches f offset s)
    (hi : i ∈ scan pending s) (hkind : i.isLiteral = false) :
    ∃ offset' rest, Reaches f offset' (i.written ++ rest) ∧ i.WellFormed := by
  induction pending, s using scan.induct generalizing offset with
  | case1 pending =>
    rw [scan] at hi
    rw [isLiteral_of_mem_flush hi] at hkind
    cases hkind
  | case2 pending c cs j rest hj ih =>
    rw [scan_of_instruction? hj, List.mem_append, List.mem_cons] at hi
    rcases hi with hi | rfl | hi
    · rw [isLiteral_of_mem_flush hi] at hkind
      cases hkind
    · obtain ⟨hwritten, hform, -⟩ := instruction?_eq_some_iff.1 hj
      exact ⟨offset, rest, hwritten ▸ h, hform⟩
    · exact ih (.take h hj) hi
  | case3 pending c cs hnone ih =>
    rw [scan_of_none hnone] at hi
    exact ih (.skip h hnone) hi

/-- A block whose first text has the end of a block in it begins with one that is closed early. -/
theorem exists_closesEarly {before name after : List Char}
    (hi : conditional before name after ∈ lex f) (hbefore : blockClose <:+: before) :
    ∃ offset inner rest, ClosesEarly f offset inner rest ∧ Completes rest := by
  obtain ⟨offset, tail, hreaches, hform, -, -⟩ := exists_reaches_of_mem_scan .start hi rfl
  obtain ⟨inner, more, rfl⟩ := hbefore
  refine ⟨offset, inner, more ++ fieldOpen ++ (name ++ fieldClose ++ (after ++ blockClose ++ tail)),
    ⟨fun h => hform (h.trans ⟨[], blockClose ++ more, by simp⟩), ?_⟩,
    more, _, rfl, name, _, rfl, after, tail, rfl, trivial⟩
  simpa only [closedBlock, written, List.append_assoc] using hreaches

theorem exists_mem_of_closesEarly (h : ClosesEarly f offset inner rest)
    (hcompletes : Completes rest) :
    ∃ before name after, conditional before name after ∈ lex f ∧ blockClose <:+: before := by
  obtain ⟨before, name, after, tail, hread⟩ := exists_instruction?_of_completes h.1 hcompletes
  obtain ⟨-, is, pending, hlex⟩ := split_of_reaches h.2
  refine ⟨inner ++ blockClose ++ before, name, after, ?_, inner, before, rfl⟩
  rw [hlex, scan_of_instruction? hread]
  simp

/-- In every format, a block that is closed before a field is kept as text, and what follows it is
read as it is by itself, exactly if no field and no further end of a block come after it.  So the
first text of a block has the end of a block in it exactly in the formats in which such a block is
completed by what follows. -/
theorem closedBlock_kept_iff (f : List Char) :
    (∀ offset inner rest, ClosesEarly f offset inner rest →
      (KeptAsText f offset (closedBlock inner) rest ↔ ¬ Completes rest)) ∧
      ((∀ before name after, conditional before name after ∈ lex f →
          ¬ blockClose <:+: before) ↔
        ∀ offset inner rest, ClosesEarly f offset inner rest → ¬ Completes rest) := by
  refine ⟨fun offset inner rest h => ?_, ?_, ?_⟩
  · exact ⟨not_completes_of_keptAsText, keptAsText_of_not_completes h⟩
  · intro hfree offset inner rest h hcompletes
    obtain ⟨before, name, after, hmem, hclose⟩ := exists_mem_of_closesEarly h hcompletes
    exact hfree before name after hmem hclose
  · intro hnone before name after hmem hclose
    obtain ⟨offset, inner, rest, h, hcompletes⟩ := exists_closesEarly hmem hclose
    exact hnone offset inner rest h hcompletes

/-- A field comes after the block, and no further end. -/
theorem closedBlock_kept_iff_field_after :
    KeptAsText (closedBlock ['a'] ++ (field ['X']).written) 0 (closedBlock ['a'])
      (field ['X']).written := by
  have hearly : ClosesEarly (closedBlock ['a'] ++ (field ['X']).written) 0 ['a']
      (field ['X']).written :=
    ⟨by decide, .start⟩
  exact ((closedBlock_kept_iff _).1 0 _ _ hearly).2
    (instruction?_blockOpen_eq_none_iff.1 (by decide +kernel))

/-- A field and a further end come after the block, which takes them for its own. -/
theorem closedBlock_swallows_field :
    lex (closedBlock ['a'] ++ (field ['X']).written ++ blockClose) =
        [conditional ('a' :: blockClose) ['X'] []] ∧
      blockClose <:+: 'a' :: blockClose := by
  decide +kernel

end AuditTrail.Template
