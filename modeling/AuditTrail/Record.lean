import AuditTrail.Permission.Set
import AuditTrail.Record.Address
import AuditTrail.Record.BatchId
import AuditTrail.Resource
import AuditTrail.Role

/-!
# Audit records

A record describes one operation of a client: who asked for it, from where, on which resource and
with which permissions.  It always requires at least one permission, so that a filter never
exempts an operation for want of anything to check.
-/

namespace AuditTrail

inductive Status where
  | attempt
  | failed
deriving DecidableEq, Repr

namespace Status

def name : Status → String
  | attempt => "ATTEMPT"
  | failed => "FAILED"

def ofName? (text : String) : Option Status := [attempt, failed].find? (·.name == text)

end Status

structure Record where
  user : Role
  client : Address
  resource : Resource
  permissions : PermissionSet
  required : permissions.isEmpty = false
  status : Status
  operation : String
  batchId : Option BatchId
  /-- Milliseconds since the epoch. -/
  timestamp : UInt64
deriving DecidableEq

namespace Record

/-- A record of an attempt, outside any batch and at the epoch. -/
def make (user : Role) (client : Address) (resource : Resource) (permissions : List Permission)
    (operation : String) : Except Error Record :=
  let set := PermissionSet.ofList permissions
  if h : set.isEmpty = false then
    .ok {
      user, client, resource, operation
      permissions := set
      required := h
      status := .attempt
      batchId := none
      timestamp := 0 }
  else .error (.invalidRecord .noPermission)

end Record
end AuditTrail
