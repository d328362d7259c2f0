import AuditTrail.Template.Compiled

/-!
# What a compiled template renders

A compiled template keeps its literal parts and its slots in two lists that run side by side.
`Aligned` says that they have as many places as values, which is all that keeps them in step.  The
texts of aligned pieces can be put one after another, and every instruction compiles to an aligned
piece, so a rendered line is the meanings of the instructions of the format in their order.
-/

namespace AuditTrail.Template

/-- The value of a field on a record; `none` when the record has none. -/
def Registry.value? (registry : Registry) (r : Record) (name : List Char) : Option String :=
  (registry.extractor? (String.ofList name)).bind fun extract => extract r

namespace Instruction

def isField : Instruction → Bool
  | field _ => true
  | _ => false

def isConditional : Instruction → Bool
  | conditional _ _ _ => true
  | _ => false

/-- The text that an instruction stands for when fields have the values given.  A value is shown
as it is: whatever it looks like, it is not read as a format. -/
def meaning (value? : List Char → Option String) : Instruction → List Char
  | literal text => text
  | field name =>
    match value? name with
    | some value => value.toList
    | none => "null".toList
  | conditional before name after =>
    match value? name with
    | some value => if value = "" then [] else before ++ value.toList ++ after
    | none => []

def meaningAll (registry : Registry) (r : Record) (is : List Instruction) : List Char :=
  is.flatMap (meaning (registry.value? r))

def slotCountAll (is : List Instruction) : Nat := is.countP isField + 3 * is.countP isConditional

end Instruction

/-! ## Parts and slots in step -/

/-- As many places as there are values to fill them. -/
def Aligned (parts : List Part) (slots : List Slot) : Prop := parts.count .slot = slots.length

theorem aligned_append {parts parts' : List Part} {slots slots' : List Slot}
    (h : Aligned parts slots) (h' : Aligned parts' slots') :
    Aligned (parts ++ parts') (slots ++ slots') := by
  unfold Aligned at *
  rw [List.count_append, List.length_append, h, h']

/-- An aligned piece takes exactly its own slots, so what follows it finds those that are meant
for it. -/
theorem fill_append {parts : List Part} {slots : List Slot} (h : Aligned parts slots) (r : Record)
    (parts' : List Part) (slots' : List Slot) :
    fill r (parts ++ parts') (slots ++ slots') = fill r parts slots ++ fill r parts' slots' := by
  induction parts generalizing slots with
  | nil =>
    have hnil : slots = [] := List.eq_nil_of_length_eq_zero (by rw [← h]; rfl)
    subst hnil
    rfl
  | cons part parts ih =>
    cases part with
    | literal text =>
      have hrest : Aligned parts slots := by
        unfold Aligned at h ⊢
        rw [← h, List.count_cons_of_ne (by simp)]
      rw [List.cons_append, fill, fill, ih hrest, List.append_assoc]
    | slot =>
      cases slots with
      | nil => simp [Aligned] at h
      | cons slot slots =>
        have hrest : Aligned parts slots := by
          unfold Aligned at h ⊢
          rw [List.count_cons_self, List.length_cons] at h
          omega
        rw [List.cons_append, List.cons_append, fill, fill, ih hrest, List.append_assoc]

/-! ## One instruction -/

theorem extractor?_of_extractor {registry : Registry} {name : String} {extract : Extractor}
    (h : registry.extractor name = .ok extract) : registry.extractor? name = some extract := by
  unfold Registry.extractor at h
  split at h
  · rename_i found hfound
    cases h
    exact hfound
  · cases h

theorem value?_of_extractor {registry : Registry} {name : List Char} {extract : Extractor}
    (h : registry.extractor (String.ofList name) = .ok extract) (r : Record) :
    registry.value? r name = extract r := by
  rw [Registry.value?, extractor?_of_extractor h]
  rfl

theorem fill_conditional (extract : Extractor) (before after : List Char) (r : Record) :
    fill r [.slot, .slot, .slot]
        [textIfPresent extract before, valueOrNothing extract, textIfPresent extract after] =
      match extract r with
      | some value => if value = "" then [] else before ++ value.toList ++ after
      | none => [] := by
  simp only [fill, textIfPresent, valueOrNothing, List.append_nil]
  cases hvalue : extract r with
  | none => simp
  | some value =>
    by_cases hempty : value = ""
    · simp [hempty]
    · simp [hempty, String.isEmpty_iff]

/-- What one instruction compiles to: a piece in step, with the meaning of the instruction. -/
theorem compileInstruction_spec {registry : Registry} {i : Instruction} {parts : List Part}
    {slots : List Slot} (h : compileInstruction registry i = .ok (parts, slots)) :
    Aligned parts slots ∧ slots.length = i.slotCount ∧
      ∀ r, fill r parts slots = i.meaning (registry.value? r) := by
  cases i with
  | literal text =>
    cases h
    refine ⟨rfl, rfl, fun r => ?_⟩
    simp [fill, Instruction.meaning]
  | field name =>
    cases hx : registry.extractor (String.ofList name) with
    | error e =>
      rw [compileInstruction, hx] at h
      cases h
    | ok extract =>
      rw [compileInstruction, hx] at h
      cases h
      refine ⟨rfl, rfl, fun r => ?_⟩
      rw [Instruction.meaning, value?_of_extractor hx]
      cases hvalue : extract r with
      | none => simp [fill, mandatory, absent, hvalue]
      | some value => simp [fill, mandatory, hvalue]
  | conditional before name after =>
    cases hx : registry.extractor (String.ofList name) with
    | error e =>
      rw [compileInstruction, hx] at h
      cases h
    | ok extract =>
      rw [compileInstruction, hx] at h
      cases h
      refine ⟨rfl, rfl, fun r => ?_⟩
      rw [Instruction.meaning, value?_of_extractor hx, fill_conditional]

/-! ## All instructions -/

theorem slotCountAll_cons (i : Instruction) (is : List Instruction) :
    Instruction.slotCountAll (i :: is) = i.slotCount + Instruction.slotCountAll is := by
  rw [Instruction.slotCountAll, Instruction.slotCountAll, List.countP_cons, List.countP_cons]
  cases i with
  | literal text => simp [Instruction.slotCount, Instruction.isField, Instruction.isConditional]
  | field name =>
    simp [Instruction.slotCount, Instruction.isField, Instruction.isConditional]
    omega
  | conditional before name after =>
    simp [Instruction.slotCount, Instruction.isField, Instruction.isConditional]
    omega

theorem compileInstructions_spec {registry : Registry} {is : List Instruction}
    {pieces : List (List Part × List Slot)}
    (h : is.mapM (compileInstruction registry) = .ok pieces) :
    Aligned (pieces.flatMap (·.1)) (pieces.flatMap (·.2)) ∧
      (pieces.flatMap (·.2)).length = Instruction.slotCountAll is ∧
      ∀ r, fill r (pieces.flatMap (·.1)) (pieces.flatMap (·.2)) =
        Instruction.meaningAll registry r is := by
  induction is generalizing pieces with
  | nil =>
    cases h
    exact ⟨rfl, rfl, fun r => rfl⟩
  | cons i is ih =>
    rw [List.mapM_cons] at h
    cases hi : compileInstruction registry i with
    | error e =>
      rw [hi] at h
      cases h
    | ok piece =>
      cases his : is.mapM (compileInstruction registry) with
      | error e =>
        rw [hi, his] at h
        cases h
      | ok rest =>
        rw [hi, his] at h
        cases h
        obtain ⟨halign, hlength, hfill⟩ := compileInstruction_spec hi
        obtain ⟨halign', hlength', hfill'⟩ := ih his
        refine ⟨aligned_append halign halign', ?_, fun r => ?_⟩
        · rw [List.flatMap_cons, List.length_append, hlength, hlength', slotCountAll_cons]
        · rw [List.flatMap_cons, List.flatMap_cons, fill_append halign, hfill, hfill']
          rfl

theorem compile_eq_ok {format : String} {registry : Registry} {t : Template}
    (h : compile format registry = .ok t) :
    ∃ pieces, (lex format.toList).mapM (compileInstruction registry) = .ok pieces ∧
      t = ⟨format, pieces.flatMap (·.1), pieces.flatMap (·.2)⟩ := by
  unfold compile at h
  cases hpieces : (lex format.toList).mapM (compileInstruction registry) with
  | error e =>
    rw [hpieces] at h
    cases h
  | ok pieces =>
    rw [hpieces] at h
    cases h
    exact ⟨pieces, rfl, rfl⟩

/-- A template renders a record as the instructions of its format say, one after another, and has
a slot for each field and three for each conditional block. -/
theorem render_eq_meaning {format : String} {registry : Registry} {t : Template}
    (h : compile format registry = .ok t) :
    (∀ r, t.render r =
        String.ofList (Instruction.meaningAll registry r (lex format.toList))) ∧
      t.slotCount = (lex format.toList).countP Instruction.isField +
        3 * (lex format.toList).countP Instruction.isConditional := by
  obtain ⟨pieces, hpieces, rfl⟩ := compile_eq_ok h
  obtain ⟨-, hlength, hfill⟩ := compileInstructions_spec hpieces
  refine ⟨fun r => ?_, ?_⟩
  · rw [render, hfill]
  · rw [slotCount, hlength]
    rfl

namespace Nested

def registry : Registry :=
  Registry.empty
    |>.register "USER" (fun r => some r.user.name)
    |>.register "NOTE" (fun _ => none)

def placeholder : List Char := (Instruction.field "NOTE".toList).written

/-- The name of the user looks like a field of the format. -/
def record : Record where
  user := ⟨String.ofList placeholder⟩
  client := .v4 #v[127, 0, 0, 1]
  resource := .data
  permissions := PermissionSet.ofList [.select]
  required := by decide
  status := .attempt
  operation := "SELECT"
  batchId := none
  timestamp := 0

def format : String :=
  String.ofList (Instruction.writtenAll
    [.literal "by ".toList, .field "USER".toList,
      .conditional " note ".toList "NOTE".toList " end".toList,
      .conditional " (".toList "USER".toList ")".toList,
      .literal " ".toList, .field "NOTE".toList])

def line : String :=
  String.ofList ("by ".toList ++ placeholder ++ " (".toList ++ placeholder ++ ") null".toList)

end Nested

theorem render_eq_meaning_nested :
    ∃ t, compile Nested.format Nested.registry = .ok t ∧ t.render Nested.record = Nested.line ∧
      t.slotCount = 8 := by
  cases h : compile Nested.format Nested.registry with
  | error e =>
    have hok : (compile Nested.format Nested.registry).isOk = true := by decide +kernel
    rw [h] at hok
    cases hok
  | ok t =>
    obtain ⟨hrender, hcount⟩ := render_eq_meaning h
    refine ⟨t, rfl, ?_, ?_⟩
    · rw [hrender]
      decide +kernel
    · rw [hcount]
      decide +kernel

end AuditTrail.Template
