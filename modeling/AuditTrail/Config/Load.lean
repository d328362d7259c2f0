import AuditTrail.Config.Document
import AuditTrail.Error
import AuditTrail.Files
import AuditTrail.Text.Blank
import AuditTrail.Yaml.Node.Reader

/-!
# Loading settings

Settings are read once, when the host starts.  Whatever can be wrong with them is reported then,
before the first record is seen.
-/

namespace AuditTrail.Config

/-- The limits that the settings must keep, in the order in which they are checked. -/
def Settings.validate (s : Settings) : Except ConfigFault Unit :=
  if s.cache.maxCapacity = 0 then .error .noCapacity
  else if s.logger.logFormat.isEmpty then .error .emptyLogFormat
  else .ok ()

theorem Settings.validate_eq_ok_iff {s : Settings} :
    s.validate = .ok () ↔ s.cache.maxCapacity ≠ 0 ∧ s.logger.logFormat.isEmpty = false := by
  unfold validate
  by_cases hc : s.cache.maxCapacity = 0
  · simp [hc]
  · by_cases hf : s.logger.logFormat.isEmpty = true
    · simp [hc, hf]
    · simp [hc, hf]

/-- Reads settings from a text.  A text with nothing in it but white space gives the defaults. -/
def ofText (text : String) : Except Error Settings :=
  if Text.isAllBlank text then .ok {}
  else
    match Yaml.Document.parse text.toList >>= Settings.ofDocument with
    | .error fault => .error (.yaml fault)
    | .ok s =>
      match s.validate with
      | .error fault => .error (.config fault)
      | .ok () => .ok s

/-- Reads settings from a file.  Where there is no file the defaults hold. -/
def load (path : FilePath) (files : FileTree) : Except Error Settings :=
  match files.find path with
  | .error _ => .ok {}
  | .ok _ =>
    match files.readText path with
    | .ok text => ofText text
    | .error fault => .error (.config (.unreadable path.toString fault))

end AuditTrail.Config
