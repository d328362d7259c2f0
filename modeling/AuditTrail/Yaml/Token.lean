import AuditTrail.Yaml.Scalar

/-!
# Tokens

The signs, names and scalars of a document in their order.  Indentation has become brackets: a block
collection has a start and an end, and what turned out to be a key is preceded by a sign for it.
-/

namespace AuditTrail.Yaml

inductive Token where
  | version (major minor : Nat)
  | handle (name : String) (expansion : Tag)
  | documentStart
  | documentEnd
  | sequenceStart
  | mappingStart
  | blockEnd
  | flowSequenceStart
  | flowSequenceEnd
  | flowMappingStart
  | flowMappingEnd
  | comma
  | item
  | key
  | value
  | anchor (name : String)
  | alias (name : String)
  | tag (handle : String) (rest : Tag)
  | scalar (text : String) (style : Style)
deriving DecidableEq, Repr

end AuditTrail.Yaml
