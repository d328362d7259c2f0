import AuditTrail.Template.Instruction
import AuditTrail.Text.Search

/-!
# Reading a log format

`lex` goes through a format once, from left to right.  Where a complete field or block begins it
takes that instruction whole; any other character, a marker that is never closed included, is
literal text.
-/

namespace AuditTrail.Template

open Text Instruction

/-- The name in a field that begins `s`, and what follows the field. -/
def field? (s : List Char) : Option (Instruction × List Char) :=
  if fieldOpen.isPrefixOf s then
    (cut? fieldClose (s.drop fieldOpen.length)).map fun (name, rest) => (field name, rest)
  else none

/-- The block that begins `s`, and what follows the block.  Its field is the first one after the
opening marker, wherever that stands. -/
def conditional? (s : List Char) : Option (Instruction × List Char) :=
  if blockOpen.isPrefixOf s then do
    let (before, inField) ← cut? fieldOpen (s.drop blockOpen.length)
    let (name, afterField) ← cut? fieldClose inField
    let (after, rest) ← cut? blockClose afterField
    some (conditional before name after, rest)
  else none

def instruction? (s : List Char) : Option (Instruction × List Char) :=
  (field? s).or (conditional? s)

theorem length_field? {s rest : List Char} {i : Instruction} (h : field? s = some (i, rest)) :
    rest.length < s.length := by
  unfold field? at h
  split at h
  · obtain ⟨⟨name, after⟩, hcut, heq⟩ := Option.map_eq_some_iff.1 h
    cases heq
    have := length_after_of_cut? hcut
    simp [fieldClose] at this
    omega
  · cases h

theorem length_conditional? {s rest : List Char} {i : Instruction}
    (h : conditional? s = some (i, rest)) : rest.length < s.length := by
  unfold conditional? at h
  split at h
  · simp only [Option.bind_eq_bind, Option.bind_eq_some_iff] at h
    obtain ⟨⟨before, inField⟩, h1, ⟨name, afterField⟩, h2, ⟨after, tail⟩, h3, heq⟩ := h
    cases heq
    have := length_after_of_cut? h1
    have := length_after_of_cut? h2
    have := length_after_of_cut? h3
    simp [fieldOpen, fieldClose, blockClose] at *
    omega
  · cases h

theorem length_instruction? {s rest : List Char} {i : Instruction}
    (h : instruction? s = some (i, rest)) : rest.length < s.length := by
  rcases Option.or_eq_some_iff.1 h with h | ⟨_, h⟩
  · exact length_field? h
  · exact length_conditional? h

/-- The literal text gathered so far, its last character first, as an instruction unless there is
none. -/
def flush : List Char → List Instruction
  | [] => []
  | pending => [literal pending.reverse]

/-- Reads `s`, with `pending` the literal text that stands directly before it. -/
def scan (pending : List Char) (s : List Char) : List Instruction :=
  match s with
  | [] => flush pending
  | c :: cs =>
    match _h : instruction? (c :: cs) with
    | some (i, rest) => flush pending ++ i :: scan [] rest
    | none => scan (c :: pending) cs
termination_by s.length
decreasing_by
  · exact length_instruction? _h
  · simp

def lex (format : List Char) : List Instruction := scan [] format

end AuditTrail.Template
