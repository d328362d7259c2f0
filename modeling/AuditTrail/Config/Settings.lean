/-!
# Settings

What an operator can choose: who is exempt, how a line of the log looks, and how much the cache of
whitelists may hold and for how long.  Every setting has a default.
-/

namespace AuditTrail.Config

inductive FilterChoice where
  | none
  | yaml
  | role
  | yamlAndRole
deriving DecidableEq, Repr

namespace FilterChoice

def all : List FilterChoice := [none, yaml, role, yamlAndRole]

def name : FilterChoice → String
  | none => "none"
  | yaml => "yaml"
  | role => "role"
  | yamlAndRole => "yaml_and_role"

def ofName? (text : String) : Option FilterChoice := all.find? (·.name == text)

end FilterChoice

def defaultLogFormat : String :=
  "client:'$\x7bCLIENT\x7d'|user:'$\x7bUSER\x7d'\x7b?|batchId:'$\x7bBATCH_ID\x7d'?\x7d" ++
    "|status:'$\x7bSTATUS\x7d'|operation:'$\x7bOPERATION\x7d'"

structure LoggerSettings where
  logFormat : String := defaultLogFormat
  /-- Timestamps are shown in milliseconds when absent. -/
  timeFormat : Option String := none
  /-- The zone of the host when absent. -/
  timeZone : Option String := none
deriving DecidableEq, Repr

structure CacheSettings where
  maxCapacity : UInt64 := 10000
  /-- Milliseconds after its load at which an entry expires. -/
  timeToLive : Option UInt64 := none
  /-- Milliseconds after its last use at which an entry expires. -/
  timeToIdle : Option UInt64 := none
deriving DecidableEq, Repr

structure Settings where
  whitelist : List String := []
  filter : FilterChoice := .role
  logger : LoggerSettings := {}
  cache : CacheSettings := {}
deriving DecidableEq, Repr

end AuditTrail.Config
