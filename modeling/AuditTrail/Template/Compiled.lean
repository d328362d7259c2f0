import AuditTrail.Template.Lexer
import AuditTrail.Template.Registry

/-!
# Compiled templates

A format is read once.  What remains is a skeleton, in which literal text alternates with numbered
places, and one slot for each place in the same order.  A conditional block takes three places,
for its first text, its value and its last text, so that rendering is a single pass and cannot
fail.
-/

namespace AuditTrail

namespace Template

inductive Part where
  | literal (text : List Char)
  | slot
deriving DecidableEq, Repr

abbrev Slot := Record → List Char

/-- Shown for a mandatory field without a value. -/
def absent : List Char := "null".toList

def mandatory (extract : Extractor) : Slot := fun r =>
  match extract r with
  | some value => value.toList
  | none => absent

def valueOrNothing (extract : Extractor) : Slot := fun r => ((extract r).getD "").toList

/-- A fixed text that is shown only where the field has a value that is not empty. -/
def textIfPresent (extract : Extractor) (text : List Char) : Slot := fun r =>
  if ((extract r).getD "").isEmpty then [] else text

def compileInstruction (registry : Registry) :
    Instruction → Except Error (List Part × List Slot)
  | .literal text => .ok ([.literal text], [])
  | .field name => do
    let extract ← registry.extractor (String.ofList name)
    return ([.slot], [mandatory extract])
  | .conditional before name after => do
    let extract ← registry.extractor (String.ofList name)
    return ([.slot, .slot, .slot],
      [textIfPresent extract before, valueOrNothing extract, textIfPresent extract after])

def fill (r : Record) : List Part → List Slot → List Char
  | [], _ => []
  | .literal text :: parts, slots => text ++ fill r parts slots
  | .slot :: parts, slot :: slots => slot r ++ fill r parts slots
  | .slot :: parts, [] => fill r parts []

end Template

structure Template where
  format : String
  parts : List Template.Part
  slots : List Template.Slot

namespace Template

/-- Every field of the format must be registered; the leftmost that is not is the error. -/
def compile (format : String) (registry : Registry) : Except Error Template := do
  let compiled ← (lex format.toList).mapM (compileInstruction registry)
  return ⟨format, compiled.flatMap (·.1), compiled.flatMap (·.2)⟩

def render (t : Template) (r : Record) : String := String.ofList (fill r t.parts t.slots)

def slotCount (t : Template) : Nat := t.slots.length

end Template

def Template.ofSettings (s : Config.LoggerSettings)
    (regions : List Time.Region := Time.Region.all) : Build Template := do
  let registry ← Registry.ofSettings s regions
  Build.ofExcept (compile s.logFormat registry)

end AuditTrail
