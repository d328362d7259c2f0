import AuditTrail.Store
import AuditTrail.Whitelist.Document

/-!
# A store in memory

It counts its loads, so that the use of a cache in front of it can be seen.
-/

namespace AuditTrail

structure MemoryStore where
  whitelists : WhitelistTable
  loads : Nat

namespace MemoryStore

def empty : MemoryStore := ⟨∅, 0⟩

def whitelistOf (s : MemoryStore) (role : Role) : Whitelist := s.whitelists.getD role ∅

def grant (s : MemoryStore) (role : Role) (r : Resource) (ps : List Permission) : MemoryStore :=
  { s with whitelists := s.whitelists.insert role ((s.whitelistOf role).grant r ps) }

def revoke (s : MemoryStore) (role : Role) (r : Resource) (ps : List Permission) : MemoryStore :=
  match s.whitelists[role]? with
  | some w => { s with whitelists := s.whitelists.insert role (w.revoke r ps) }
  | none => s

def removeRole (s : MemoryStore) (role : Role) : MemoryStore :=
  { s with whitelists := s.whitelists.erase role }

def load (s : MemoryStore) (role : Role) : Whitelist × MemoryStore :=
  (s.whitelistOf role, { s with loads := s.loads + 1 })

instance : WhitelistStore MemoryStore where
  load s role := ((.ok (s.load role).1), (s.load role).2)
  setup s := (.ok (), s)
  name _ := "memory"

end MemoryStore
end AuditTrail
