import AuditTrail.Filter

/-!
# Filters that are counted

A leaf of this kind gives one answer always, and it is counted how often each is prepared and how
often it is asked.  Chains of such leaves show which members a chain consults.
-/

namespace AuditTrail

inductive CountedLeaf where
  | nothing
  | users (names : List String)
  /-- Gives its answer, or fails when it has none. -/
  | fixed (index : Nat) (answer : Option Bool) (preparable : Bool)
deriving DecidableEq, Repr

abbrev CallCounts := List (Nat × Nat)

abbrev Counted (α : Type) := ExceptT Error (StateM CallCounts) α

namespace CountedLeaf

def count (index : Nat) (f : Nat × Nat → Nat × Nat) : Counted Unit :=
  modify fun counts => counts.modify index f

def isFiltered (record : Record) : CountedLeaf → Counted Bool
  | nothing => pure false
  | users names => pure (names.contains record.user.name)
  | fixed index answer _ => do
    count index fun (prepared, asked) => (prepared, asked + 1)
    match answer with
    | some b => pure b
    | none => throw (.store (.stated "unavailable"))

def setup : CountedLeaf → Counted Unit
  | nothing | users _ => pure ()
  | fixed index _ preparable => do
    count index fun (prepared, asked) => (prepared + 1, asked)
    if preparable then pure () else throw (.store (.stated "setup unavailable"))

end CountedLeaf

abbrev CountedFilter := FilterTree CountedLeaf

namespace CountedFilter

def isFiltered (f : CountedFilter) (record : Record) (counts : CallCounts) :
    Except Error Bool × CallCounts :=
  (FilterTree.isFiltered (CountedLeaf.isFiltered record) f).run.run counts

def setup (f : CountedFilter) (counts : CallCounts) : Except Error Unit × CallCounts :=
  (FilterTree.setup CountedLeaf.setup f).run.run counts

end CountedFilter
end AuditTrail
