import AuditTrail.Config.Settings
import AuditTrail.Record
import AuditTrail.Time.Stamp

/-!
# Fields

A log format refers to fields by name.  A registry maps each name to the extractor of its value; a
record need not have a value for every field.
-/

namespace AuditTrail.Template

abbrev Extractor := Record → Option String

structure Registry where
  extractors : Std.ExtTreeMap String Extractor

namespace Registry

def empty : Registry := ⟨∅⟩

def register (r : Registry) (name : String) (extract : Extractor) : Registry :=
  ⟨r.extractors.insert name extract⟩

def extractor? (r : Registry) (name : String) : Option Extractor := r.extractors[name]?

def extractor (r : Registry) (name : String) : Except Error Extractor :=
  match r.extractor? name with
  | some extract => .ok extract
  | none => .error (.unknownField name)

def names (r : Registry) : List String := r.extractors.keys

def standard (stamp : Time.Stamp) : Registry :=
  empty
    |>.register "CLIENT" (fun r => some r.client.write)
    |>.register "USER" (fun r => some r.user.name)
    |>.register "BATCH_ID" (fun r => r.batchId.map (·.text))
    |>.register "STATUS" (fun r => some r.status.name)
    |>.register "OPERATION" (fun r => some r.operation)
    |>.register "TIMESTAMP" (fun r => some (stamp.write r.timestamp))

/-- The standard fields, with timestamps shown as the settings ask. -/
def ofSettings (s : Config.LoggerSettings) (regions : List Time.Region := Time.Region.all) :
    Build Registry := do
  return standard (← Time.Stamp.make s.timeFormat s.timeZone regions)

end Registry
end AuditTrail.Template
