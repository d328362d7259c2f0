import AuditTrail.Procedure
import AuditTrail.Record
import AuditTrail.Resource.Lineage

/-!
# Deciding by roles

A record is exempt when each permission that it requires is covered by some role of its user, on
its resource or on a scope around it.  Different roles may cover different permissions.

Roles are asked for their whitelists in turn and only until the permission at hand is covered.
The whitelists seen so far always belong to the roles at the front of the order, so they and the
roles after them are all that a decision remembers, and no role is asked twice.
-/

namespace AuditTrail.Decision

def covers (lineage : List Resource) (p : Permission) (w : Whitelist) : Bool :=
  lineage.any fun r => w.permits r p

/-- The whitelists that have been seen and the roles that have not been asked. -/
structure Progress where
  seen : List Whitelist
  unasked : List Role

/-- Asks role after role until a whitelist fits; `none` when none does. -/
def askUntil (fits : Whitelist → Bool) (seen : List Whitelist) :
    List Role → Procedure (Option Progress)
  | [] => .done none
  | role :: rest =>
    .whitelist role fun w =>
      if fits w then .done (some ⟨seen ++ [w], rest⟩) else askUntil fits (seen ++ [w]) rest

def coverAll (lineage : List Resource) (progress : Progress) :
    List Permission → Procedure Bool
  | [] => .done true
  | p :: ps =>
    if progress.seen.any (covers lineage p) then coverAll lineage progress ps
    else
      (askUntil (covers lineage p) progress.seen progress.unasked).andThen fun
        | none => .done false
        | some progress => coverAll lineage progress ps

def amongRoles (record : Record) (roles : List Role) : Procedure Bool :=
  coverAll record.resource.lineage ⟨[], roles⟩ record.permissions.toList

/-- Whether the record is exempt.  The roles of its user may be listed in any order; those whose
whitelists the cache holds are asked first, so that a hit needs no load. -/
def decideIn (order : List Role → List Role) (record : Record) : Procedure Bool := do
  let roles ← Procedure.rolesOf record.user
  let roles ← Procedure.sortResidentFirst (order roles)
  amongRoles record roles

def decide (record : Record) : Procedure Bool := decideIn id record

end AuditTrail.Decision
