import AuditTrail.Time.Moment

/-!
# How timestamps are shown

Without a pattern a timestamp is shown as its number of milliseconds.  The same number stands in
for a text that cannot be written, so showing a timestamp never fails.
-/

namespace AuditTrail.Time

inductive Stamp where
  | millis
  | pattern (items : List Item) (zone : Zone)
deriving DecidableEq, Repr

namespace Stamp

/-- The zone is read first and must be good even where no pattern uses it. -/
def make (pattern? zone? : Option String) (regions : List Region := Region.all) :
    Build Stamp := do
  let zone ← match zone? with
    | some id => Zone.parse id regions
    | none => pure .system
  match pattern? with
  | none => return millis
  | some p =>
    if p.isEmpty then .refuse (.invalidTimeFormat p .empty)
    else
      match Pattern.items? p.toList with
      | some items => return pattern items zone
      | none => .refuse (.invalidTimeFormat p .unsupported)

def write (s : Stamp) (timestamp : UInt64) : String :=
  let plain := toString timestamp.toNat
  match s with
  | millis => plain
  | pattern items zone =>
    match (Moment.ofMillis? zone timestamp.toNat).bind (·.write? items) with
    | some text => String.ofList text
    | none => plain

end Stamp
end AuditTrail.Time
