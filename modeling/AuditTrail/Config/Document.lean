import AuditTrail.Config.Settings
import AuditTrail.Fault
import AuditTrail.Text.Digits
import AuditTrail.Yaml.Node

/-!
# Settings in a document

A section of the settings is a mapping.  Each of its keys may be given once and none is needed,
and a key that is not known is an error, so that a misspelt setting does not go unnoticed.
-/

namespace AuditTrail.Config

open Yaml (Document Node Scalar Tag)

abbrev Decoded (α : Type) := ReaderT Document (Except YamlFault) α

def unexpected {α : Type} (found : Node) (wanted : String) : Decoded α :=
  throw (.unexpected found.describe wanted)

def resolve (n : Node) : Decoded Node := return (← read).resolve n

/-- Any scalar is a text, whatever it might mean elsewhere. -/
def decodeText (n : Node) : Decoded String := do
  match ← resolve n with
  | .scalar s => return s.text
  | other => unexpected other "a string"

/-- Digits after a prefix that names their base, or decimal ones that do not begin with a zero. -/
def unsigned? (text : List Char) : Option Nat :=
  match text with
  | '0' :: 'x' :: digits => Text.number? 16 digits
  | '0' :: 'o' :: digits => Text.number? 8 digits
  | '0' :: 'b' :: digits => Text.number? 2 digits
  | '0' :: _ :: _ => none
  | digits => Text.number? 10 digits

def wholeNumber? (text : List Char) : Option Nat :=
  match text with
  | '+' :: rest => unsigned? rest
  | _ => unsigned? text

/-- What is quoted is a text and no number, unless a tag says otherwise of a literal block. -/
def mayBeNumber (s : Scalar) : Bool :=
  s.style == .plain || (s.style == .literal && s.tag == some .number)

def decodeNumber (n : Node) : Decoded UInt64 := do
  match ← resolve n with
  | .scalar s =>
    match wholeNumber? s.text.toList with
    | some n =>
      if mayBeNumber s && n < UInt64.size then return UInt64.ofNat n
      else unexpected (.scalar s) "a whole number"
    | none => unexpected (.scalar s) "a whole number"
  | other => unexpected other "a whole number"

/-- A value that may be left out, also by a word for nothing. -/
def decodeOptional {α : Type} (decode : Node → Decoded α) (n : Node) : Decoded (Option α) := do
  match ← resolve n with
  | .scalar s =>
    match s.style, s.tag with
    | .plain, some tag =>
      if tag ≠ .null then some <$> decode n
      else if Scalar.nullWords.contains s.text then return none
      else unexpected n "null"
    | _, _ => if s.isNothing then return none else some <$> decode n
  | _ => some <$> decode n

/-- A list that is left empty has no items. -/
def decodeList {α : Type} (decode : Node → Decoded α) (n : Node) : Decoded (List α) := do
  match ← resolve n with
  | .sequence items => items.mapM decode
  | .scalar s => if s.isEmpty then return [] else unexpected (.scalar s) "a sequence"
  | other => unexpected other "a sequence"

/-- A choice is named by a text, or by a tag of the host on nothing. -/
def decodeChoice (n : Node) : Decoded FilterChoice := do
  match ← resolve n with
  | .scalar s =>
    let found (name : String) : Decoded FilterChoice :=
      match FilterChoice.ofName? name with
      | some choice => return choice
      | none => unexpected (.scalar s) "a type of filter"
    match s.tag.bind Tag.localName? with
    | none => found s.text
    | some name => if s.isNothing then found name else unexpected (.scalar s) "a unit"
  | other => unexpected other "a type of filter"

/-- A key of a section, and what its value does to the section. -/
structure Field (σ : Type) where
  name : String
  alias? : Option String := none
  put : σ → Node → Decoded σ

namespace Field

variable {σ : Type}

def answersTo (f : Field σ) (key : String) : Bool := f.name == key || f.alias? == some key

/-- Puts the pairs of a mapping into a section.  The keys in `given` have been met before. -/
def putAll (fields : List (Field σ)) : (given : List String) → σ → List (Node × Node) → Decoded σ
  | _, s, [] => return s
  | given, s, (key, value) :: pairs => do
    let key ← decodeText key
    match fields.find? (·.answersTo key) with
    | none => throw (.unknownKey key)
    | some f =>
      if given.contains f.name then throw (.duplicateKey f.name)
      else putAll fields (f.name :: given) (← f.put s value) pairs

/-- A section that is left empty has its defaults. -/
def decodeSection (fields : List (Field σ)) (usual : σ) (n : Node) : Decoded σ := do
  match ← resolve n with
  | .mapping pairs => putAll fields [] usual pairs
  | .scalar s => if s.isEmpty then return usual else unexpected (.scalar s) "a section"
  | other => unexpected other "a section"

end Field

namespace LoggerSettings

def fields : List (Field LoggerSettings) :=
  [{ name := "log_format", put := fun s n => return { s with logFormat := ← decodeText n } },
   { name := "time_format"
     put := fun s n => return { s with timeFormat := ← decodeOptional decodeText n } },
   { name := "time_zone"
     put := fun s n => return { s with timeZone := ← decodeOptional decodeText n } }]

def ofNode (n : Node) : Decoded LoggerSettings := Field.decodeSection fields {} n

end LoggerSettings

namespace CacheSettings

def fields : List (Field CacheSettings) :=
  [{ name := "max_capacity", put := fun s n => return { s with maxCapacity := ← decodeNumber n } },
   { name := "time_to_live_millis"
     put := fun s n => return { s with timeToLive := ← decodeOptional decodeNumber n } },
   { name := "time_to_idle_millis"
     put := fun s n => return { s with timeToIdle := ← decodeOptional decodeNumber n } }]

def ofNode (n : Node) : Decoded CacheSettings := Field.decodeSection fields {} n

end CacheSettings

namespace Settings

def fields : List (Field Settings) :=
  [{ name := "whitelist"
     put := fun s n => return { s with whitelist := ← decodeList decodeText n } },
   { name := "filter_type", put := fun s n => return { s with filter := ← decodeChoice n } },
   { name := "logger", alias? := some "slf4j"
     put := fun s n => return { s with logger := ← LoggerSettings.ofNode n } },
   { name := "whitelist_cache"
     put := fun s n => return { s with cache := ← CacheSettings.ofNode n } }]

def ofDocument (d : Document) : Except YamlFault Settings :=
  (Field.decodeSection fields {} d.root).run d

end Settings
end AuditTrail.Config
