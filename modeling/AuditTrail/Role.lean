import Std.Data.ExtTreeMap

/-!
# Roles

Users and the roles granted to them share one name space: a user is a role too.
-/

namespace AuditTrail

structure Role where
  name : String
deriving DecidableEq, Repr

namespace Role

instance : Ord Role := ⟨fun a b => compare a.name b.name⟩

instance : Std.TransOrd Role := inferInstanceAs (Std.TransCmp (compareOn Role.name))

instance : Std.LawfulEqOrd Role where
  eq_of_compare {a b} h := by
    cases a
    cases b
    exact congrArg mk (Std.LawfulEqOrd.eq_of_compare h)

end Role
end AuditTrail
