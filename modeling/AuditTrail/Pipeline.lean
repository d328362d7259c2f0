import AuditTrail.Filter
import AuditTrail.Template.Compiled

/-!
# The audit of an operation

A pipeline decides first and logs second.  A record whose decision fails is not logged, and what
that means for the operation is left to the host.
-/

namespace AuditTrail

structure Pipeline where
  filter : Filter
  template : Template

namespace Pipeline

/-- Every fault of the settings is found here, before any record is seen. -/
def ofSettings (s : Config.Settings) (regions : List Time.Region := Time.Region.all) :
    Build Pipeline := do
  return ⟨Filter.ofSettings s, ← Template.ofSettings s.logger regions⟩

def setup (p : Pipeline) : Procedure Unit := p.filter.setup

def audit (p : Pipeline) (record : Record) : Procedure Bool := do
  if ← p.filter.isFiltered record then return false
  Procedure.appendLine (p.template.render record)
  return true

end Pipeline
end AuditTrail
