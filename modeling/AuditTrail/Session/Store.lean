import AuditTrail.Store.File
import AuditTrail.Store.Memory

/-!
# The store of a session

A session works on whitelists in memory or in a file.  The preparation of the store in memory can be
made to fail.
-/

namespace AuditTrail.Session

inductive Store where
  | memory (store : MemoryStore) (setupFault : Option Error)
  | file (store : FileStore)

namespace Store

def load (s : Store) (role : Role) : Except Error Whitelist × Store :=
  match s with
  | memory store fault =>
    let (w, store) := store.load role
    (.ok w, memory store fault)
  | file store => (store.load role, s)

def setup (s : Store) : Except Error Unit × Store :=
  match s with
  | memory _ (some e) => (.error e, s)
  | memory _ none => (.ok (), s)
  | file store =>
    let (answer, store) := store.setup
    (answer, file store)

def name : Store → String
  | memory store _ => WhitelistStore.name store
  | file store => WhitelistStore.name store

instance : WhitelistStore Store := ⟨load, setup, name⟩

def isFile : Store → Bool
  | memory _ _ => false
  | file _ => true

end Store
end AuditTrail.Session
