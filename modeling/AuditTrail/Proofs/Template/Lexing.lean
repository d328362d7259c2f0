import AuditTrail.Proofs.Text.Occurrence
import AuditTrail.Template.Lexer
import Mathlib.Data.List.Chain

/-!
# What the lexer of log formats does

A list of instructions is the reading of a format exactly when it writes out to the format and is
`Maximal`: nothing in it could have been read as a longer instruction, and no literal text is empty
or broken in two (`lex_eq_iff`).  So the reading is unique, and each half of the equivalence is a
theorem about lexing: that it loses nothing and takes all it can, and that it undoes writing.
-/

namespace AuditTrail.Template

open Text Instruction

namespace Instruction

def isLiteral : Instruction → Bool
  | literal _ => true
  | _ => false

/-- The parts of an instruction are such that its markers are found where they stand. -/
def WellFormed : Instruction → Prop
  | literal text => text ≠ []
  | field name => '}' ∉ name
  | conditional before name after =>
    ¬ fieldOpen <:+: before ∧ '}' ∉ name ∧ ¬ blockClose <:+: after

@[simp] theorem writtenAll_nil : writtenAll [] = [] := rfl

@[simp] theorem writtenAll_cons (i : Instruction) (is : List Instruction) :
    writtenAll (i :: is) = i.written ++ writtenAll is := List.flatMap_cons

@[simp] theorem writtenAll_append (is js : List Instruction) :
    writtenAll (is ++ js) = writtenAll is ++ writtenAll js := List.flatMap_append

end Instruction

variable {s rest : List Char} {i : Instruction}

/-! ## One instruction -/

theorem field?_eq_some_iff :
    field? s = some (i, rest) ↔
      ∃ name, i = field name ∧ '}' ∉ name ∧ s = (field name).written ++ rest := by
  constructor
  · intro h
    rw [field?] at h
    split at h
    · rename_i hopen
      obtain ⟨⟨name, after⟩, hcut, heq⟩ := Option.map_eq_some_iff.1 h
      cases heq
      obtain ⟨hbody, hname⟩ := cut?_singleton_iff.1 hcut
      refine ⟨name, rfl, hname, ?_⟩
      rw [eq_append_of_isPrefixOf hopen, hbody]
      simp only [written, fieldClose, List.append_assoc]
    · cases h
  · rintro ⟨name, rfl, hname, rfl⟩
    have hcut : cut? fieldClose (name ++ fieldClose ++ rest) = some (name, rest) :=
      cut?_singleton_iff.2 ⟨rfl, hname⟩
    rw [List.append_assoc] at hcut
    simp [field?, written, fieldOpen, hcut]

theorem conditional?_eq_some_iff :
    conditional? s = some (i, rest) ↔
      ∃ before name after, i = conditional before name after ∧
        (conditional before name after).WellFormed ∧
        s = (conditional before name after).written ++ rest := by
  constructor
  · intro h
    rw [conditional?] at h
    split at h
    · rename_i hopen
      simp only [Option.bind_eq_bind, Option.bind_eq_some_iff] at h
      obtain ⟨⟨before, inField⟩, h₁, ⟨name, afterField⟩, h₂, ⟨after, tail⟩, h₃, heq⟩ := h
      cases heq
      dsimp only at h₂ h₃ ⊢
      obtain ⟨hbody, hbefore⟩ := (cut?_pair_iff (by decide)).1 h₁
      obtain ⟨hfield, hname⟩ := cut?_singleton_iff.1 h₂
      obtain ⟨htail, hafter⟩ := (cut?_pair_iff (by decide)).1 h₃
      refine ⟨before, name, after, rfl, ⟨hbefore, hname, hafter⟩, ?_⟩
      rw [eq_append_of_isPrefixOf hopen, hbody, hfield, htail]
      simp only [written, fieldOpen, fieldClose, blockClose, List.append_assoc]
    · cases h
  · rintro ⟨before, name, after, rfl, ⟨hbefore, hname, hafter⟩, rfl⟩
    have h₁ (t : List Char) : cut? fieldOpen (before ++ (fieldOpen ++ t)) = some (before, t) := by
      rw [← List.append_assoc]
      exact (cut?_pair_iff (by decide)).2 ⟨rfl, hbefore⟩
    have h₂ (t : List Char) : cut? fieldClose (name ++ (fieldClose ++ t)) = some (name, t) := by
      rw [← List.append_assoc]
      exact cut?_singleton_iff.2 ⟨rfl, hname⟩
    have h₃ (t : List Char) : cut? blockClose (after ++ (blockClose ++ t)) = some (after, t) := by
      rw [← List.append_assoc]
      exact (cut?_pair_iff (by decide)).2 ⟨rfl, hafter⟩
    simp [conditional?, written, blockOpen, h₁, h₂, h₃]

theorem field?_of_blockOpen (t : List Char) : field? (blockOpen ++ t) = none := rfl

/-- An instruction is read off the front of a text exactly when its written form stands there. -/
theorem instruction?_eq_some_iff :
    instruction? s = some (i, rest) ↔
      s = i.written ++ rest ∧ i.WellFormed ∧ i.isLiteral = false := by
  rw [instruction?, Option.or_eq_some_iff, field?_eq_some_iff, conditional?_eq_some_iff]
  constructor
  · rintro (⟨name, rfl, hname, hs⟩ | ⟨-, before, name, after, rfl, hform, hs⟩)
    · exact ⟨hs, hname, rfl⟩
    · exact ⟨hs, hform, rfl⟩
  · rintro ⟨rfl, hform, hkind⟩
    cases i with
    | literal text => cases hkind
    | field name => exact Or.inl ⟨name, rfl, hform, rfl⟩
    | conditional before name after =>
      refine Or.inr ⟨?_, before, name, after, rfl, hform, rfl⟩
      simp only [written, List.append_assoc]
      exact field?_of_blockOpen _

/-- A field begins here that is closed somewhere later. -/
def BeginsField (s : List Char) : Prop :=
  ∃ body, s = fieldOpen ++ body ∧ InOrder [fieldClose] body

/-- A block begins here, and its field and its end follow somewhere later. -/
def BeginsBlock (s : List Char) : Prop :=
  ∃ body, s = blockOpen ++ body ∧ InOrder [fieldOpen, fieldClose, blockClose] body

/-- An instruction is read exactly where a field or a block can be completed. -/
theorem instruction?_eq_none_iff : instruction? s = none ↔ ¬ BeginsField s ∧ ¬ BeginsBlock s := by
  constructor
  · intro h
    rw [instruction?, Option.or_eq_none_iff] at h
    refine ⟨?_, ?_⟩
    · rintro ⟨body, rfl, hbody⟩
      obtain ⟨name, rest, hcut, -⟩ := (inOrder_cons_iff (by decide)).1 hbody
      simp [field?, fieldOpen, hcut] at h
    · rintro ⟨body, rfl, hbody⟩
      obtain ⟨before, inField, h₁, hbody⟩ := (inOrder_cons_iff (by decide)).1 hbody
      obtain ⟨name, afterField, h₂, hbody⟩ := (inOrder_cons_iff (by decide)).1 hbody
      obtain ⟨after, rest, h₃, -⟩ := (inOrder_cons_iff (by decide)).1 hbody
      simp [conditional?, blockOpen, h₁, h₂, h₃] at h
  · rintro ⟨hfield, hblock⟩
    rw [Option.eq_none_iff_forall_ne_some]
    rintro ⟨i, rest⟩ h
    obtain ⟨rfl, -, hkind⟩ := instruction?_eq_some_iff.1 h
    cases i with
    | literal text => cases hkind
    | field name =>
      refine hfield ⟨name ++ fieldClose ++ rest, ?_, name, rest, rfl, trivial⟩
      simp only [written, List.append_assoc]
    | conditional before name after =>
      refine hblock ⟨before ++ fieldOpen ++ (name ++ fieldClose ++ (after ++ blockClose ++ rest)),
        ?_, before, _, rfl, name, _, rfl, after, rest, rfl, trivial⟩
      simp only [written, List.append_assoc]

/-! ## Literal text -/

/-- Neither a field nor a block begins inside `text` when `rest` follows it. -/
def Plain (text rest : List Char) : Prop :=
  ∀ front back, text = front ++ back → back ≠ [] →
    ¬ BeginsField (back ++ rest) ∧ ¬ BeginsBlock (back ++ rest)

theorem plain_nil (rest : List Char) : Plain [] rest := by
  intro front back hsplit hback
  exact absurd (List.append_eq_nil_iff.1 hsplit.symm).2 hback

theorem plain_cons_iff {c : Char} {text : List Char} :
    Plain (c :: text) rest ↔ instruction? (c :: (text ++ rest)) = none ∧ Plain text rest := by
  rw [instruction?_eq_none_iff]
  constructor
  · intro h
    refine ⟨h [] (c :: text) rfl (List.cons_ne_nil c text), fun front back hsplit => ?_⟩
    exact h (c :: front) back (by rw [hsplit, List.cons_append])
  · rintro ⟨hhere, hlater⟩ front back hsplit hback
    cases front with
    | nil =>
      rw [← show c :: text = back from hsplit]
      exact hhere
    | cons d front =>
      rw [List.cons_append, List.cons.injEq] at hsplit
      exact hlater front back hsplit.2 hback

theorem plain_append_iff {text text' : List Char} :
    Plain (text ++ text') rest ↔ Plain text (text' ++ rest) ∧ Plain text' rest := by
  induction text with
  | nil => simp [plain_nil]
  | cons c text ih =>
    rw [List.cons_append, plain_cons_iff, plain_cons_iff, ih, and_assoc, List.append_assoc]

/-! ## The scan -/

theorem scan_of_instruction? {pending : List Char} (h : instruction? s = some (i, rest)) :
    scan pending s = flush pending ++ i :: scan [] rest := by
  cases s with
  | nil => cases h
  | cons c cs =>
    rw [scan]
    split
    · rename_i j tail hj
      rw [h] at hj
      cases hj
      rfl
    · rename_i hnone
      rw [h] at hnone
      cases hnone

theorem scan_of_none {pending : List Char} {c : Char} {cs : List Char}
    (h : instruction? (c :: cs) = none) : scan pending (c :: cs) = scan (c :: pending) cs := by
  rw [scan]
  split
  · rename_i j tail hj
    rw [h] at hj
    cases hj
  · rfl

theorem scan_of_plain {text : List Char} (h : Plain text rest) (pending : List Char) :
    scan pending (text ++ rest) = scan (text.reverse ++ pending) rest := by
  induction text generalizing pending with
  | nil => rfl
  | cons c text ih =>
    obtain ⟨hnone, hlater⟩ := plain_cons_iff.1 h
    rw [List.cons_append, scan_of_none hnone, ih hlater, List.reverse_cons, List.append_assoc,
      List.singleton_append]

theorem flush_reverse {text : List Char} (h : text ≠ []) : flush text.reverse = [literal text] := by
  cases hrev : text.reverse with
  | nil => exact absurd (List.reverse_eq_nil_iff.1 hrev) h
  | cons c cs =>
    show [literal (c :: cs).reverse] = [literal text]
    rw [← hrev, List.reverse_reverse]

/-- The instructions are complete and none of them could be longer: a literal is not empty, does not
touch another one, and has no place where a field or a block of the whole text begins. -/
structure Maximal (is : List Instruction) : Prop where
  wellFormed : ∀ i ∈ is, i.WellFormed
  separated : is.IsChain fun i j => i.isLiteral = false ∨ j.isLiteral = false
  plain : ∀ before text after, is = before ++ literal text :: after →
    Plain text (writtenAll after)

def OpensWithText (is : List Instruction) : Prop := ∃ i ∈ is.head?, i.isLiteral = true

theorem maximal_nil : Maximal [] where
  wellFormed := by simp
  separated := .nil
  plain := by simp

theorem maximal_cons_iff {is : List Instruction} :
    Maximal (i :: is) ↔
      i.WellFormed ∧ (i.isLiteral = true → ¬ OpensWithText is) ∧
        (∀ text, i = literal text → Plain text (writtenAll is)) ∧ Maximal is := by
  constructor
  · rintro ⟨hform, hseparated, hplain⟩
    rw [List.isChain_cons] at hseparated
    refine ⟨hform i List.mem_cons_self, ?_, fun text hi => hplain [] text is (by rw [hi]; rfl),
      fun j hj => hform j (List.mem_cons_of_mem i hj), hseparated.2,
      fun before text after his => hplain (i :: before) text after (by rw [his]; rfl)⟩
    rintro hi ⟨j, hj, hkind⟩
    rcases hseparated.1 j hj with h | h
    · rw [hi] at h
      cases h
    · rw [hkind] at h
      cases h
  · rintro ⟨hi, hseparated, hplain, hrest⟩
    refine ⟨?_, ?_, ?_⟩
    · rintro j (_ | ⟨_, hj⟩)
      · exact hi
      · exact hrest.wellFormed j hj
    · refine List.isChain_cons.2 ⟨fun j hj => ?_, hrest.separated⟩
      cases hkind : i.isLiteral with
      | false => exact Or.inl rfl
      | true => exact Or.inr (Bool.eq_false_iff.2 fun hj' => hseparated hkind ⟨j, hj, hj'⟩)
    · intro before text after his
      cases before with
      | nil =>
        rw [List.nil_append, List.cons.injEq] at his
        rw [← his.2]
        exact hplain text his.1
      | cons j before =>
        rw [List.cons_append, List.cons.injEq] at his
        exact hrest.plain before text after his.2

theorem maximal_flush_append {pending : List Char} {is : List Instruction}
    (hplain : Plain pending.reverse (writtenAll is)) (hopens : ¬ OpensWithText is)
    (h : Maximal is) : Maximal (flush pending ++ is) := by
  cases pending with
  | nil => exact h
  | cons c pending =>
    refine maximal_cons_iff.2 ⟨by simp [WellFormed], fun _ => hopens, ?_, h⟩
    rintro text ⟨⟩
    exact hplain

@[simp] theorem writtenAll_flush (pending : List Char) :
    writtenAll (flush pending) = pending.reverse := by
  cases pending <;> simp [flush, written]

theorem not_opensWithText_of_instruction? (h : instruction? s = some (i, rest))
    (is : List Instruction) : ¬ OpensWithText (i :: is) := by
  rintro ⟨j, hj, hkind⟩
  cases hj
  rw [(instruction?_eq_some_iff.1 h).2.2] at hkind
  cases hkind

theorem writtenAll_scan (pending s : List Char) :
    writtenAll (scan pending s) = pending.reverse ++ s := by
  induction pending, s using scan.induct with
  | case1 pending => rw [scan, writtenAll_flush, List.append_nil]
  | case2 pending c cs i rest h ih =>
    rw [scan_of_instruction? h, writtenAll_append, writtenAll_cons, ih, writtenAll_flush,
      List.reverse_nil, List.nil_append, (instruction?_eq_some_iff.1 h).1]
  | case3 pending c cs h ih =>
    rw [scan_of_none h, ih, List.reverse_cons, List.append_assoc, List.singleton_append]

/-- Text is held back only as long as nothing begins in it, so none of it could have been more. -/
theorem maximal_scan {pending : List Char} (hplain : Plain pending.reverse s) :
    Maximal (scan pending s) := by
  induction pending, s using scan.induct with
  | case1 pending =>
    rw [scan, ← List.append_nil (flush pending)]
    exact maximal_flush_append hplain (by simp [OpensWithText]) maximal_nil
  | case2 pending c cs i rest h ih =>
    obtain ⟨hs, hform, hkind⟩ := instruction?_eq_some_iff.1 h
    rw [scan_of_instruction? h]
    refine maximal_flush_append ?_ (not_opensWithText_of_instruction? h _)
      (maximal_cons_iff.2 ⟨hform, ?_, ?_, ih (plain_nil rest)⟩)
    · rw [writtenAll_cons, writtenAll_scan, List.reverse_nil, List.nil_append, ← hs]
      exact hplain
    · intro htext
      rw [hkind] at htext
      cases htext
    · rintro text rfl
      cases hkind
  | case3 pending c cs h ih =>
    rw [scan_of_none h]
    refine ih ?_
    rw [List.reverse_cons]
    exact plain_append_iff.2 ⟨hplain, plain_cons_iff.2 ⟨h, plain_nil cs⟩⟩

theorem scan_writtenAll {pending : List Char} {is : List Instruction} (h : Maximal is)
    (hopens : pending = [] ∨ ¬ OpensWithText is) :
    scan pending (writtenAll is) = flush pending ++ is := by
  induction is generalizing pending with
  | nil => rw [writtenAll_nil, scan, List.append_nil]
  | cons i is ih =>
    obtain ⟨hform, hseparated, hplain, hrest⟩ := maximal_cons_iff.1 h
    rw [writtenAll_cons]
    cases hkind : i.isLiteral with
    | false =>
      rw [scan_of_instruction? (instruction?_eq_some_iff.2 ⟨rfl, hform, hkind⟩),
        ih hrest (Or.inl rfl)]
      rfl
    | true =>
      obtain rfl : pending = [] := hopens.resolve_right fun hno => hno ⟨i, rfl, hkind⟩
      cases i with
      | literal text =>
        rw [written, scan_of_plain (hplain text rfl), List.append_nil,
          ih hrest (Or.inr (hseparated rfl)), flush_reverse hform]
        rfl
      | field name => cases hkind
      | conditional before name after => cases hkind

/-- The reading of a format is the one maximal list that writes out to it. -/
theorem lex_eq_iff {is : List Instruction} : lex s = is ↔ writtenAll is = s ∧ Maximal is := by
  constructor
  · rintro rfl
    exact ⟨writtenAll_scan [] s, maximal_scan (plain_nil s)⟩
  · rintro ⟨rfl, h⟩
    exact scan_writtenAll h (Or.inl rfl)

/-! ## Byte offsets -/

def bytes (s : List Char) : Nat := (String.ofList s).utf8ByteSize

theorem bytes_append (s t : List Char) : bytes (s ++ t) = bytes s + bytes t := by
  rw [bytes, String.ofList_append, String.utf8ByteSize_append, bytes, bytes]

theorem bytes_singleton (c : Char) : bytes [c] = c.utf8Size := by
  rw [bytes, ← String.singleton_eq_ofList, String.utf8ByteSize_singleton]

/-- How far an instruction moves the scan, added up from its parts and markers. -/
def Instruction.consumed : Instruction → Nat
  | literal text => bytes text
  | field name => 2 + bytes name + 1
  | conditional before name after => 2 + bytes before + 2 + bytes name + 1 + bytes after + 2

theorem consumed_eq_bytes (i : Instruction) : i.consumed = bytes i.written := by
  have hopen : bytes fieldOpen = 2 := by decide
  have hclose : bytes fieldClose = 1 := by decide
  have hblock : bytes blockOpen = 2 := by decide
  have hend : bytes blockClose = 2 := by decide
  cases i <;> simp only [Instruction.consumed, written, bytes_append, hopen, hclose, hblock, hend]

/-- A scan of `f` comes to stand at a byte offset, with `rest` still to be read. -/
inductive Reaches (f : List Char) : Nat → List Char → Prop
  | start : Reaches f 0 f
  | take {offset s i rest} (h : Reaches f offset s) (hi : instruction? s = some (i, rest)) :
    Reaches f (offset + i.consumed) rest
  | skip {offset c cs} (h : Reaches f offset (c :: cs)) (hnone : instruction? (c :: cs) = none) :
    Reaches f (offset + c.utf8Size) cs

/-- What has been read lies before the offset, and what the scan gives from there on ends the
reading of the whole. -/
theorem split_of_reaches {f : List Char} {offset : Nat} (h : Reaches f offset rest) :
    (∃ front, f = front ++ rest ∧ offset = bytes front) ∧
      ∃ is pending, lex f = is ++ scan pending rest := by
  induction h with
  | start => exact ⟨⟨[], rfl, rfl⟩, [], [], rfl⟩
  | @take offset s i rest h hi ih =>
    obtain ⟨⟨front, hf, rfl⟩, is, pending, hlex⟩ := ih
    refine ⟨⟨front ++ i.written, ?_, ?_⟩, is ++ flush pending ++ [i], [], ?_⟩
    · rw [hf, (instruction?_eq_some_iff.1 hi).1, List.append_assoc]
    · rw [consumed_eq_bytes, bytes_append]
    · rw [hlex, scan_of_instruction? hi]
      simp only [List.append_assoc, List.singleton_append]
  | @skip offset c cs h hnone ih =>
    obtain ⟨⟨front, hf, rfl⟩, is, pending, hlex⟩ := ih
    refine ⟨⟨front ++ [c], ?_, ?_⟩, is, c :: pending, ?_⟩
    · rw [hf, List.append_assoc, List.singleton_append]
    · rw [bytes_append, bytes_singleton]
    · rw [hlex, scan_of_none hnone]

theorem isValid_of_reaches {f : String} {offset : Nat} (h : Reaches f.toList offset rest) :
    String.Pos.Raw.IsValid f ⟨offset⟩ := by
  obtain ⟨front, hf, rfl⟩ := (split_of_reaches h).1
  refine String.Pos.Raw.isValid_iff_exists_append.2
    ⟨String.ofList front, String.ofList rest, ?_, rfl⟩
  rw [← String.ofList_append, ← hf, String.ofList_toList]

/-- The scan goes on from wherever it stands to the end.  What it holds back plays no part. -/
theorem reaches_end {f : List Char} {offset : Nat} (pending : List Char) (h : Reaches f offset s) :
    Reaches f (offset + bytes s) [] := by
  induction pending, s using scan.induct generalizing offset with
  | case1 pending => exact h
  | case2 pending c cs i rest hi ih =>
    have hend := ih (.take h hi)
    rw [consumed_eq_bytes, Nat.add_assoc, ← bytes_append, ← (instruction?_eq_some_iff.1 hi).1]
      at hend
    exact hend
  | case3 pending c cs hnone ih =>
    have hend := ih (.skip h hnone)
    rw [← bytes_singleton, Nat.add_assoc, ← bytes_append, List.singleton_append] at hend
    exact hend

/-- The reading of a format writes out to the format and is maximal.  The byte offsets at which the
scan stands go up to the end of the format, and each of them is the boundary of a character. -/
theorem lex_lossless (f : String) :
    writtenAll (lex f.toList) = f.toList ∧ Maximal (lex f.toList) ∧
      Reaches f.toList f.utf8ByteSize [] ∧
      ∀ offset rest, Reaches f.toList offset rest →
        String.Pos.Raw.IsValid f ⟨offset⟩ ∧
          ∃ is pending, lex f.toList = is ++ scan pending rest := by
  obtain ⟨hwritten, hmaximal⟩ := lex_eq_iff.1 (rfl : lex f.toList = lex f.toList)
  refine ⟨hwritten, hmaximal, ?_, fun offset rest h => ?_⟩
  · have hend := reaches_end [] (.start : Reaches f.toList 0 f.toList)
    rw [Nat.zero_add, bytes, String.ofList_toList] at hend
    exact hend
  · exact ⟨isValid_of_reaches h, (split_of_reaches h).2⟩

end AuditTrail.Template
