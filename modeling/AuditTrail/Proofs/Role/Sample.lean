import AuditTrail.Role

/-!
# The roles of the witnesses

The closed statements beside the theorems speak of the same few roles, whatever graph, store or
cache they are about.
-/

namespace AuditTrail.SampleRole

def user : Role := ⟨"user"⟩

/-- A role that the user may hold. -/
def auditor : Role := ⟨"auditor"⟩

/-- A role is any text, and so is this one. -/
def nameless : Role := ⟨""⟩

end AuditTrail.SampleRole
