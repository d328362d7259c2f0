import AuditTrail.Proofs.Template.Lexing
import AuditTrail.Proofs.Template.Meaning

/-!
# What becomes of the fields of a format

A field that is written out in a format may stand anywhere: in plain text, in a block, in the name
of another field.  Reading takes the first that it can at every place, so in literal text and in the
first text of a block none is left.  One that a template does not evaluate begins in the last text
of a block, because a block has one field only (`fieldAt_writtenAll`).
-/

namespace AuditTrail.Template

open Text Instruction

variable {front name u v : List Char} {i j : Instruction} {is : List Instruction}

/-- The field is written out in the text, after `front`. -/
def FieldAt (text front name : List Char) : Prop :=
  '}' ∉ name ∧ ∃ rest, text = front ++ ((field name).written ++ rest)

def HoldsField (text : List Char) : Prop := ∃ front name, FieldAt text front name

namespace Instruction

/-- What an instruction writes before the name of its field. -/
def lead : Instruction → List Char
  | literal _ => []
  | field _ => fieldOpen
  | conditional before _ _ => blockOpen ++ before ++ fieldOpen

end Instruction

/-- The instruction stands in the reading where `front` has been read. -/
def StandsAt (is : List Instruction) (front : List Char) (i : Instruction) : Prop :=
  ∃ js ks, is = js ++ i :: ks ∧ front = writtenAll js

/-- The field that is written out after `front` is that of an instruction, or the end of one whose
name has an opening marker in it. -/
def IsEvaluated (is : List Instruction) (front name : List Char) : Prop :=
  ∃ place i whole, StandsAt is place i ∧ i.name? = some whole ∧
    fieldOpen ++ name <:+ fieldOpen ++ whole ∧
    front ++ (fieldOpen ++ name) = place ++ i.lead ++ whole

/-- The last text of a block has the opening of a field in it, with `front` before. -/
def InLastText (is : List Instruction) (front : List Char) : Prop :=
  ∃ place before name after pre, StandsAt is place (conditional before name after) ∧
    pre ++ fieldOpen <+: after ∧
    front = place ++ (conditional before name []).lead ++ name ++ fieldClose ++ pre

/-! ## Fields in pieces of text -/

theorem FieldAt.opens (h : FieldAt u [] name) : fieldOpen <+: u := by
  obtain ⟨-, rest, rfl⟩ := h
  exact ⟨name ++ fieldClose ++ rest, by simp [written]⟩

theorem FieldAt.beginsField (h : FieldAt u [] name) : BeginsField u := by
  obtain ⟨-, rest, rfl⟩ := h
  refine ⟨name ++ fieldClose ++ rest, ?_, name, rest, rfl, trivial⟩
  simp only [written, List.nil_append, List.append_assoc]

/-- A field that is written out in two texts put together begins in one of them. -/
theorem FieldAt.of_append (h : FieldAt (u ++ v) front name) :
    (∃ front', front = u ++ front' ∧ FieldAt v front' name) ∨
      ∃ back, back ≠ [] ∧ u = front ++ back ∧ FieldAt (back ++ v) [] name := by
  obtain ⟨hname, rest, hrest⟩ := h
  rcases List.append_eq_append_iff.1 hrest with ⟨front', hfront, hv⟩ | ⟨back, hu, hback⟩
  · exact Or.inl ⟨front', hfront, hname, rest, hv⟩
  · by_cases hnil : back = []
    · subst hnil
      exact Or.inl ⟨[], by simpa using hu.symm, hname, rest, hback.symm⟩
    · exact Or.inr ⟨back, hnil, hu, hname, rest, hback.symm⟩

theorem prefix_or_across {a b : Char} {back : List Char} (hback : back ≠ [])
    (h : [a, b] <+: back ++ v) : [a, b] <+: back ∨ (back = [a] ∧ v.head? = some b) := by
  match back, hback, h with
  | [c], _, h =>
    rw [List.singleton_append, List.cons_prefix_cons] at h
    obtain ⟨rfl, rest, rfl⟩ := h
    exact Or.inr ⟨rfl, rfl⟩
  | c :: d :: back, _, h =>
    rw [List.cons_append, List.cons_append, List.cons_prefix_cons, List.cons_prefix_cons] at h
    obtain ⟨rfl, rfl, -⟩ := h
    exact Or.inl ⟨back, rfl⟩

/-- No field begins in a text without its opening marker, unless the marker stands across the end
of the text. -/
theorem FieldAt.of_append_free (h : FieldAt (u ++ v) front name) (hfree : ¬ fieldOpen <:+: u)
    (hacross : u.getLast? = some '$' → v.head? ≠ some '{') :
    ∃ front', front = u ++ front' ∧ FieldAt v front' name := by
  rcases h.of_append with hlater | ⟨back, hback, rfl, hat⟩
  · exact hlater
  · rcases prefix_or_across hback hat.opens with hopens | ⟨rfl, hhead⟩
    · exact absurd (hopens.isInfix.trans ⟨front, [], by simp⟩) hfree
    · exact absurd hhead (hacross (by simp))

/-- A field that begins where the name of another is written is the end of that other one. -/
theorem FieldAt.of_field {whole : List Char} (hwhole : '}' ∉ whole)
    (h : FieldAt (fieldOpen ++ whole ++ (fieldClose ++ v)) front name) :
    (fieldOpen ++ name <:+ fieldOpen ++ whole ∧
        front ++ (fieldOpen ++ name) = fieldOpen ++ whole) ∨
      ∃ front', front = fieldOpen ++ whole ++ fieldClose ++ front' ∧ FieldAt v front' name := by
  rcases h.of_append with ⟨front', rfl, hlater⟩ | ⟨back, -, hsplit, hat⟩
  · obtain ⟨front'', rfl, hrest⟩ :=
      hlater.of_append_free (by decide) (fun hlast => absurd hlast (by decide))
    exact Or.inr ⟨front'', by simp only [List.append_assoc], hrest⟩
  · -- both names end where the first closing marker stands
    obtain ⟨hname, rest, hrest⟩ := hat
    have hclose : '}' ∉ back := by
      intro hmem
      have hin : '}' ∈ fieldOpen ++ whole := by
        rw [hsplit]
        exact List.mem_append_right front hmem
      rcases List.mem_append.1 hin with hin | hin
      · exact absurd hin (by decide)
      · exact hwhole hin
    have hopen : '}' ∉ fieldOpen ++ name := by
      intro hin
      rcases List.mem_append.1 hin with hin | hin
      · exact absurd hin (by decide)
      · exact hname hin
    have hcut : cut? fieldClose (back ++ fieldClose ++ v) = some (back, v) :=
      cut?_singleton_iff.2 ⟨rfl, hclose⟩
    have hcut' : cut? fieldClose (back ++ fieldClose ++ v) = some (fieldOpen ++ name, rest) := by
      refine cut?_singleton_iff.2 ⟨?_, hopen⟩
      rw [List.append_assoc, hrest]
      simp only [written, List.nil_append, List.append_assoc, fieldClose]
    rw [hcut, Option.some.injEq, Prod.mk.injEq] at hcut'
    obtain ⟨rfl, -⟩ := hcut'
    exact Or.inl ⟨⟨front, hsplit.symm⟩, hsplit.symm⟩

/-! ## Fields in what is written out -/

theorem StandsAt.cons {place : List Char} (h : StandsAt is place i) (j : Instruction) :
    StandsAt (j :: is) (j.written ++ place) i := by
  obtain ⟨js, ks, rfl, rfl⟩ := h
  exact ⟨j :: js, ks, rfl, writtenAll_cons j js⟩

theorem standsAt_head (i : Instruction) (is : List Instruction) : StandsAt (i :: is) [] i :=
  ⟨[], is, rfl, rfl⟩

theorem IsEvaluated.cons (h : IsEvaluated is front name) (j : Instruction) :
    IsEvaluated (j :: is) (j.written ++ front) name := by
  obtain ⟨place, i, whole, hplace, hname, hsuffix, hend⟩ := h
  refine ⟨j.written ++ place, i, whole, hplace.cons j, hname, hsuffix, ?_⟩
  simp only [List.append_assoc] at hend ⊢
  rw [hend]

theorem InLastText.cons (h : InLastText is front) (j : Instruction) :
    InLastText (j :: is) (j.written ++ front) := by
  obtain ⟨place, before, name, after, pre, hplace, hopens, hfront⟩ := h
  refine ⟨j.written ++ place, before, name, after, pre, hplace.cons j, hopens, ?_⟩
  rw [hfront]
  simp only [List.append_assoc]

/-- A field that is written out in a maximal reading is that of an instruction or begins in the last
text of a block. -/
theorem fieldAt_writtenAll (hmaximal : Maximal is) (h : FieldAt (writtenAll is) front name) :
    IsEvaluated is front name ∨ InLastText is front := by
  induction is generalizing front with
  | nil =>
    obtain ⟨-, rest, hrest⟩ := h
    simp [written, fieldOpen] at hrest
  | cons i is ih =>
    obtain ⟨hform, -, hplain, hrest⟩ := maximal_cons_iff.1 hmaximal
    have hlater {front' : List Char} (hfront : front = i.written ++ front')
        (hat : FieldAt (writtenAll is) front' name) :
        IsEvaluated (i :: is) front name ∨ InLastText (i :: is) front := by
      subst hfront
      exact (ih hrest hat).imp (·.cons i) (·.cons i)
    rw [writtenAll_cons] at h
    cases i with
    | literal text =>
      rcases h.of_append with ⟨front', hfront, hat⟩ | ⟨back, hback, hsplit, hat⟩
      · exact hlater hfront hat
      · exact absurd hat.beginsField (hplain text rfl front back hsplit hback).1
    | field whole =>
      rw [written, List.append_assoc] at h
      rcases h.of_field hform with ⟨hsuffix, hend⟩ | ⟨front', hfront, hat⟩
      · exact Or.inl ⟨[], field whole, whole, standsAt_head _ _, rfl, hsuffix, hend⟩
      · exact hlater hfront hat
    | conditional before whole after =>
      obtain ⟨hbefore, hwhole, -⟩ := hform
      have hassoc : (conditional before whole after).written ++ writtenAll is =
          (blockOpen ++ before) ++ (fieldOpen ++ whole ++ (fieldClose ++
            (after ++ (blockClose ++ writtenAll is)))) := by
        simp only [written, List.append_assoc]
      rw [hassoc] at h
      have hfree : ¬ fieldOpen <:+: blockOpen ++ before := by
        intro hinfix
        rcases infix_append_of_pair hinfix with hinfix | hinfix | ⟨hlast, -⟩
        · exact absurd hinfix (by decide)
        · exact hbefore hinfix
        · exact absurd hlast (by decide)
      obtain ⟨front₁, rfl, h₁⟩ := h.of_append_free hfree (fun _ => by simp [fieldOpen])
      rcases h₁.of_field hwhole with ⟨hsuffix, hend⟩ | ⟨front₂, rfl, h₂⟩
      · refine Or.inl ⟨[], _, whole, standsAt_head _ _, rfl, hsuffix, ?_⟩
        rw [List.append_assoc, hend]
        simp only [lead, List.nil_append, List.append_assoc]
      · rcases h₂.of_append with ⟨front₃, rfl, h₃⟩ | ⟨back, hback, rfl, hat⟩
        · obtain ⟨front₄, rfl, h₄⟩ :=
            h₃.of_append_free (by decide) (fun hlast => absurd hlast (by decide))
          refine hlater ?_ h₄
          simp only [written, List.append_assoc]
        · refine Or.inr ⟨[], before, whole, _, front₂, standsAt_head _ _, ?_, ?_⟩
          · rcases prefix_or_across hback hat.opens with hopens | ⟨-, hhead⟩
            · exact (List.prefix_append_right_inj front₂).2 hopens
            · exact absurd hhead (by simp [blockClose])
          · simp only [lead, List.nil_append, List.append_assoc]

/-! ## Fields of a template -/

theorem extractor_eq_error {registry : Registry} {name : String} {e : Error}
    (h : registry.extractor name = .error e) :
    registry.extractor? name = none ∧ e = .unknownField name := by
  unfold Registry.extractor at h
  split at h
  · cases h
  · rename_i hnone
    cases h
    exact ⟨hnone, rfl⟩

/-- One instruction compiles exactly if the registry knows the name of its field. -/
theorem compileInstruction_outcome (registry : Registry) (i : Instruction) :
    match compileInstruction registry i with
    | .ok _ => ∀ name, i.name? = some name →
        ∃ extract, registry.extractor? (String.ofList name) = some extract
    | .error e => ∃ name, i.name? = some name ∧ registry.extractor? (String.ofList name) = none ∧
        e = .unknownField (String.ofList name) := by
  cases i with
  | literal text =>
    intro name hname
    cases hname
  | field name | conditional before name after =>
    cases hx : registry.extractor (String.ofList name) with
    | ok extract =>
      simp only [compileInstruction, hx]
      rintro name' ⟨⟩
      exact ⟨extract, extractor?_of_extractor hx⟩
    | error e =>
      simp only [compileInstruction, hx]
      exact ⟨name, rfl, extractor_eq_error hx⟩

theorem compileInstructions_outcome (registry : Registry) (is : List Instruction) :
    match is.mapM (compileInstruction registry) with
    | .ok _ => ∀ i ∈ is, ∀ name, i.name? = some name →
        ∃ extract, registry.extractor? (String.ofList name) = some extract
    | .error e => ∃ i ∈ is, ∃ name, i.name? = some name ∧
        registry.extractor? (String.ofList name) = none ∧
        e = .unknownField (String.ofList name) := by
  induction is with
  | nil => simp [List.mapM_nil, pure, Except.pure]
  | cons i is ih =>
    have hi := compileInstruction_outcome registry i
    rw [List.mapM_cons]
    cases hhead : compileInstruction registry i with
    | error e =>
      rw [hhead] at hi
      exact ⟨i, List.mem_cons_self, hi⟩
    | ok piece =>
      rw [hhead] at hi
      cases htail : is.mapM (compileInstruction registry) with
      | error e =>
        rw [htail] at ih
        obtain ⟨j, hj, hrest⟩ := ih
        exact ⟨j, List.mem_cons_of_mem i hj, hrest⟩
      | ok pieces =>
        rw [htail] at ih
        rintro j (_ | ⟨_, hj⟩)
        · exact hi
        · exact ih j hj

theorem not_holdsField_of_not_infix (h : ¬ fieldOpen <:+: u) : ¬ HoldsField u := by
  rintro ⟨front, name, -, rest, rfl⟩
  exact h ⟨front, name ++ fieldClose ++ rest, by simp [written]⟩

theorem not_holdsField_of_plain (h : Plain u v) : ¬ HoldsField u := by
  rintro ⟨front, name, hname, rest, rfl⟩
  refine (h front _ rfl (by simp [written, fieldOpen])).1 ?_
  exact FieldAt.beginsField ⟨hname, rest ++ v, by simp⟩

/-- A format that does not compile has a field that no one registered, and that is the error.  In
one that compiles every field that is read is registered.  No field is left in literal text or in
the first text of a block.  So each field that is written out in the format is evaluated, as it
stands or as the end of one with a longer name, unless it begins in the last text of a block. -/
theorem fields_accounted (format : String) (registry : Registry) :
    (∀ e, compile format registry = .error e →
      ∃ i ∈ lex format.toList, ∃ name, i.name? = some name ∧
        registry.extractor? (String.ofList name) = none ∧
        e = .unknownField (String.ofList name)) ∧
      ∀ t, compile format registry = .ok t →
        (∀ i ∈ lex format.toList, ∀ name, i.name? = some name →
            ∃ extract, registry.extractor? (String.ofList name) = some extract) ∧
          (∀ text, literal text ∈ lex format.toList → ¬ HoldsField text) ∧
          (∀ before name after, conditional before name after ∈ lex format.toList →
            ¬ HoldsField before) ∧
          ∀ front name, FieldAt format.toList front name →
            IsEvaluated (lex format.toList) front name ∨ InLastText (lex format.toList) front := by
  obtain ⟨hwritten, hmaximal⟩ := lex_eq_iff.1 (rfl : lex format.toList = lex format.toList)
  have houtcome := compileInstructions_outcome registry (lex format.toList)
  refine ⟨fun e he => ?_, fun t ht => ⟨?_, fun text htext => ?_, fun before name after hblock => ?_,
    fun front name hat => ?_⟩⟩
  · rw [compile] at he
    cases hpieces : (lex format.toList).mapM (compileInstruction registry) with
    | ok pieces =>
      rw [hpieces] at he
      cases he
    | error e' =>
      rw [hpieces] at he houtcome
      cases he
      exact houtcome
  · obtain ⟨pieces, hpieces, -⟩ := compile_eq_ok ht
    rw [hpieces] at houtcome
    exact houtcome
  · obtain ⟨js, ks, hsplit⟩ := List.append_of_mem htext
    exact not_holdsField_of_plain (hmaximal.plain js text ks hsplit)
  · exact not_holdsField_of_not_infix (hmaximal.wellFormed _ hblock).1
  · rw [← hwritten] at hat
    exact fieldAt_writtenAll hmaximal hat

namespace Survivor

/-- The last text of the block has a field in it that no one registered. -/
def block : Instruction :=
  .conditional [] "USER".toList (' ' :: (Instruction.field "NOPE".toList).written)

def format : String := String.ofList block.written

def record : Record := { Nested.record with user := ⟨"alice"⟩ }

def line : String := String.ofList ("alice ".toList ++ (Instruction.field "NOPE".toList).written)

end Survivor

theorem fields_accounted_survivor :
    FieldAt Survivor.format.toList blockOpen "USER".toList ∧
      IsEvaluated (lex Survivor.format.toList) blockOpen "USER".toList := by
  have hat : FieldAt Survivor.format.toList blockOpen "USER".toList :=
    ⟨by decide, ' ' :: (Instruction.field "NOPE".toList).written ++ blockClose, by decide⟩
  have hok : (compile Survivor.format Nested.registry).isOk = true := by decide +kernel
  cases h : compile Survivor.format Nested.registry with
  | error e =>
    rw [h] at hok
    cases hok
  | ok t =>
    refine ⟨hat, (((fields_accounted _ _).2 t h).2.2.2 _ _ hat).resolve_right ?_⟩
    -- before the last text of a block a field has been closed
    rintro ⟨place, before, name, after, pre, -, -, hfront⟩
    have hclose : '}' ∈ blockOpen := by
      rw [hfront]
      simp [fieldClose]
    exact absurd hclose (by decide)

/-- The field of the last text compiles although it is not registered, and it is shown as it is
written. -/
theorem field_survives :
    lex Survivor.format.toList = [Survivor.block] ∧
      (Nested.registry.extractor? "NOPE").isNone = true ∧
      HoldsField (' ' :: (Instruction.field "NOPE".toList).written) ∧
      ∃ t, compile Survivor.format Nested.registry = .ok t ∧
        t.render Survivor.record = Survivor.line := by
  have hrendered : (compile Survivor.format Nested.registry).map (·.render Survivor.record) =
      .ok Survivor.line := by
    decide +kernel
  refine ⟨by decide +kernel, by decide +kernel, ?_, ?_⟩
  · exact ⟨[' '], "NOPE".toList, by decide, [], by decide⟩
  · cases h : compile Survivor.format Nested.registry with
    | error e =>
      rw [h] at hrendered
      cases hrendered
    | ok t =>
      rw [h] at hrendered
      exact ⟨t, rfl, Except.ok.inj hrendered⟩

end AuditTrail.Template
