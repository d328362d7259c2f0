import AuditTrail.Config.Settings
import AuditTrail.Failure
import AuditTrail.Procedure

/-!
# The cache of whitelists

An entry is the whitelist that a store gave for a role, stamped with the generation that the role
had when the load began.  A generation is a cache-wide epoch together with a counter of the role.
Every invalidation raises one of the two before it takes anything out, so a load that was in
flight at that time leaves an entry with an old stamp.

There is at most one load in flight for each role.  Callers that miss the role meanwhile wait for
that load and share its result.

This module holds the state and the single changes to it.  Reading a generation takes two of them,
one for the counter and one for the epoch, and others may come between.
-/

namespace AuditTrail

/-- The numbers have no bound.  A counter of 64 bits would come round to values that it has had,
after as many invalidations as there are values, and that is left out. -/
structure Generation where
  epoch : Nat
  counter : Nat
deriving DecidableEq, Repr

abbrev TaskId := Nat

namespace Cache

structure Entry where
  generation : Generation
  whitelist : Whitelist
deriving DecidableEq

inductive LoadStage where
  | begun
  /-- The counter of the role has been read, and the epoch has not. -/
  | counted (counter : Nat)
  | stamped (generation : Generation)
  | asked (generation : Generation)
  /-- The store has answered, and no one has been told. -/
  | answered (generation : Generation) (answer : Except Error Whitelist)

structure Flight where
  stage : LoadStage
  /-- Those who wait for the load, in the order in which they came.  The first one started it. -/
  waiters : List TaskId

end Cache

structure Cache where
  /-- Whether entries are kept at all.  They are not when there is no room for any, or when they
  would expire at once. -/
  retains : Bool
  epoch : Nat
  counters : Std.ExtTreeMap Role Nat
  resident : Std.ExtTreeMap Role Cache.Entry
  flights : Std.ExtTreeMap Role Cache.Flight

namespace Cache

def new (retains : Bool) : Cache := ⟨retains, 0, ∅, ∅, ∅⟩

/-- The longest time, in milliseconds, for which an entry can be kept: a thousand years. -/
def maxLifetime : Nat := 1000 * 365 * 24 * 3600 * 1000

def lifetimes (s : Config.CacheSettings) : List Nat :=
  (s.timeToLive.toList ++ s.timeToIdle.toList).map UInt64.toNat

def ofSettings (s : Config.CacheSettings) : Build Cache :=
  if (lifetimes s).any (maxLifetime < ·) then .crash .lifetimeTooLong
  else .ok (new (s.maxCapacity ≠ 0 && (lifetimes s).all (· ≠ 0)))

def counter (c : Cache) (role : Role) : Nat := c.counters.getD role 0

/-- The generation of a role, with nothing between the two reads. -/
def generation (c : Cache) (role : Role) : Generation := ⟨c.epoch, c.counter role⟩

def entry? (c : Cache) (role : Role) : Option Entry := c.resident[role]?

def isResident (c : Cache) (role : Role) : Bool := (c.entry? role).isSome

def flight? (c : Cache) (role : Role) : Option Flight := c.flights[role]?

/-- Makes what has been loaded in the scope out of date. -/
def bump (c : Cache) : Scope → Cache
  | .role role => { c with counters := c.counters.insert role (c.counter role + 1) }
  | .everything => { c with epoch := c.epoch + 1 }

def discard (c : Cache) : Scope → Cache
  | .role role => { c with resident := c.resident.erase role }
  | .everything => { c with resident := ∅ }

def keep (c : Cache) (role : Role) (entry : Entry) : Cache :=
  if c.retains then { c with resident := c.resident.insert role entry } else c

/-- Waits for the load of a role, which begins if none is in flight. -/
def join (c : Cache) (role : Role) (task : TaskId) : Cache :=
  let flight := (c.flight? role).getD ⟨.begun, []⟩
  { c with flights := c.flights.insert role { flight with waiters := flight.waiters ++ [task] } }

def setStage (c : Cache) (role : Role) (stage : LoadStage) : Cache :=
  match c.flight? role with
  | some flight => { c with flights := c.flights.insert role { flight with stage } }
  | none => c

def land (c : Cache) (role : Role) : Cache := { c with flights := c.flights.erase role }

def size (c : Cache) : Nat := c.resident.size

end Cache
end AuditTrail
