import AuditTrail.Fault

/-!
# Errors

One constructor for each kind of failure, with its cause.  `Error.message` holds all of the
wording, and the two predicates say which errors a host meets while it starts up
(`isConfiguration`) and which while a decision is being looked up (`isLookup`).
-/

namespace AuditTrail

inductive Error where
  /-- A log format names a field that no one registered. -/
  | unknownField (name : String)
  | invalidTimeFormat (pattern : String) (fault : PatternFault)
  | invalidTimeZone (id : String)
  | config (fault : ConfigFault)
  | roleHierarchy (role : String) (reason : String)
  | store (fault : StoreFault)
  /-- A path without any segment. -/
  | invalidResource (path : String)
  | invalidRecord (fault : RecordFault)
  | sink (fault : SinkFault)
  | serialization (fault : DocumentFault)
  | yaml (fault : YamlFault)
  | io (fault : OsFault)
deriving DecidableEq, Repr

namespace Error

def message : Error → String
  | unknownField name => "Unknown log format field: " ++ name
  | invalidTimeFormat pattern fault =>
    "Invalid time format '" ++ pattern ++ "': " ++ fault.message
  | invalidTimeZone id => "Invalid time zone: " ++ id
  | config fault => "Configuration error: " ++ fault.message
  | roleHierarchy role reason => "Failed to resolve roles of '" ++ role ++ "': " ++ reason
  | store fault => "Whitelist store error: " ++ fault.message
  | invalidResource path => "Invalid resource path: '" ++ path ++ "'"
  | invalidRecord fault => "Invalid audit record: " ++ fault.message
  | sink fault => "Sink error: " ++ fault.message
  | serialization fault => "Serialization error: " ++ fault.message
  | yaml fault => "YAML error: " ++ fault.message
  | io fault => "I/O error: " ++ fault.message

def isConfiguration : Error → Bool
  | unknownField _ | invalidTimeFormat _ _ | invalidTimeZone _ | config _ | yaml _ => true
  | _ => false

def isLookup : Error → Bool
  | roleHierarchy _ _ | store _ => true
  | _ => false

/-- What the callers that shared one load are told of its failure: a lookup error as it is, any
other error as a store failure that quotes it. -/
def relayed : Error → Error
  | roleHierarchy role reason => roleHierarchy role reason
  | store fault => store fault
  | other => store (.stated other.message)

theorem isLookup_relayed (e : Error) : e.relayed.isLookup = true := by
  cases e <;> rfl

theorem relayed_of_isLookup {e : Error} (h : e.isLookup = true) : e.relayed = e := by
  cases e <;> simp_all [isLookup, relayed]

end Error
end AuditTrail
