import AuditTrail.Template.Compiled
import AuditTrail.Text.Quoted

/-!
# Describing a logger

One line that tells an operator which format a logger renders and how many values it inserts.
-/

namespace AuditTrail.Template

def describe (t : Template) : String :=
  "CompiledTemplate \x7b format: " ++ Text.quote t.format ++ ", slots: " ++
    toString t.slotCount ++ " \x7d"

def describeLogger (t : Template) : String :=
  "TemplateLogger \x7b template: " ++ t.describe ++ ", .. \x7d"

end AuditTrail.Template
