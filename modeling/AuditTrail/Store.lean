import AuditTrail.Role
import AuditTrail.Whitelist

/-!
# Stores

A store keeps the whitelist of each role.  A role that it knows nothing of has the empty whitelist,
which is no error.
-/

namespace AuditTrail

class WhitelistStore (σ : Type) where
  load : σ → Role → Except Error Whitelist × σ
  /-- Prepares the store for its first load.  Preparing it again changes nothing. -/
  setup : σ → Except Error Unit × σ
  name : σ → String

end AuditTrail
