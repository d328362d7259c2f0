import AuditTrail.Config.Settings
import AuditTrail.Decision

/-!
# Filters

A filter tells whether a record must not be logged.  Filters are put together into chains, and
chains into longer ones; a chain consults its members in order and stops at the first that
suppresses the record or fails.  `FilterTree` says how chains are walked, for any kind of leaf and
any way of asking one.
-/

namespace AuditTrail

inductive FilterTree (ι : Type) where
  | leaf (i : ι)
  | chain (members : List (FilterTree ι))

namespace FilterTree

variable {ι : Type} {m : Type → Type} [Monad m]

mutual

def isFiltered (ask : ι → m Bool) : FilterTree ι → m Bool
  | leaf i => ask i
  | chain members => anyFiltered ask members

def anyFiltered (ask : ι → m Bool) : List (FilterTree ι) → m Bool
  | [] => pure false
  | f :: fs => do if ← isFiltered ask f then pure true else anyFiltered ask fs

end

mutual

def setup (prepare : ι → m Unit) : FilterTree ι → m Unit
  | leaf i => prepare i
  | chain members => setupAll prepare members

def setupAll (prepare : ι → m Unit) : List (FilterTree ι) → m Unit
  | [] => pure ()
  | f :: fs => do
    setup prepare f
    setupAll prepare fs

end

mutual

def leaves : FilterTree ι → List ι
  | leaf i => [i]
  | chain members => leavesAll members

def leavesAll : List (FilterTree ι) → List ι
  | [] => []
  | f :: fs => leaves f ++ leavesAll fs

end

end FilterTree

inductive FilterLeaf where
  | nothing
  | users (names : List String)
  | roles
deriving DecidableEq, Repr

namespace FilterLeaf

def isFiltered (record : Record) : FilterLeaf → Procedure Bool
  | nothing => .done false
  | users names => .done (names.contains record.user.name)
  | roles => Decision.decide record

def setup : FilterLeaf → Procedure Unit
  | nothing | users _ => .done ()
  | roles => .prepareStore

end FilterLeaf

abbrev Filter := FilterTree FilterLeaf

namespace Filter

def isFiltered (f : Filter) (record : Record) : Procedure Bool :=
  FilterTree.isFiltered (FilterLeaf.isFiltered record) f

def setup (f : Filter) : Procedure Unit := FilterTree.setup FilterLeaf.setup f

/-- The list of users comes before the roles, since asking it costs nothing. -/
def ofSettings (s : Config.Settings) : Filter :=
  match s.filter with
  | .none => .leaf .nothing
  | .yaml => .leaf (.users s.whitelist)
  | .role => .leaf .roles
  | .yamlAndRole => .chain [.leaf (.users s.whitelist), .leaf .roles]

end Filter
end AuditTrail
