/-!
# Causes of errors

Each kind of error has its own causes.  A host that brings its own collaborators reports failures in
its own words, which is what the constructor `stated` carries.
-/

namespace AuditTrail

inductive OsFault where
  | notFound
  | busy
  | fileExists
  | notDirectory
  | isDirectory
  | nameTooLong
  /-- A path with a zero character cannot be given to the system. -/
  | zeroInPath
  /-- The bytes of a file are no text. -/
  | notUtf8
  | stated (text : String)
deriving DecidableEq, Repr

namespace OsFault

def message : OsFault → String
  | notFound => "No such file or directory (os error 2)"
  | busy => "Device or resource busy (os error 16)"
  | fileExists => "File exists (os error 17)"
  | notDirectory => "Not a directory (os error 20)"
  | isDirectory => "Is a directory (os error 21)"
  | nameTooLong => "File name too long (os error 36)"
  | zeroInPath => "file name contained an unexpected NUL byte"
  | notUtf8 => "stream did not contain valid UTF-8"
  | stated text => text

end OsFault

inductive PatternFault where
  | empty
  /-- A `%` that begins no known specifier. -/
  | unsupported
  | stated (text : String)
deriving DecidableEq, Repr

namespace PatternFault

def message : PatternFault → String
  | empty => "pattern is empty"
  | unsupported => "bad or unsupported format string"
  | stated text => text

end PatternFault

inductive ConfigFault where
  | unknownPermission (text : String)
  | noCapacity
  | emptyLogFormat
  | unreadable (path : String) (fault : OsFault)
  | stated (text : String)
deriving DecidableEq, Repr

namespace ConfigFault

def message : ConfigFault → String
  | unknownPermission text => "Unknown permission: " ++ text
  | noCapacity => "whitelist_cache.max_capacity must be >= 1"
  | emptyLogFormat => "logger.log_format cannot be empty"
  | unreadable path fault => "Failed to read config file " ++ path ++ ": " ++ fault.message
  | stated text => text

end ConfigFault

inductive DocumentFault where
  | malformed
  | invalidResource (path : String)
  | unknownPermission (name : String)
  | unexpected (found : String) (wanted : String)
  | stated (text : String)
deriving DecidableEq, Repr

namespace DocumentFault

def message : DocumentFault → String
  | malformed => "malformed document"
  | invalidResource path => "Invalid resource path: '" ++ path ++ "'"
  | unknownPermission name =>
    "unknown variant `" ++ name ++ "`, expected one of `CREATE`, `ALTER`, `DROP`, `SELECT`, " ++
      "`MODIFY`, `AUTHORIZE`, `DESCRIBE`, `EXECUTE`"
  | unexpected found wanted => "invalid type: " ++ found ++ ", expected " ++ wanted
  | stated text => text

end DocumentFault

inductive StoreFault where
  | unreadable (path : String) (fault : OsFault)
  | unparsable (path : String) (fault : DocumentFault)
  | noDirectory (path : String) (fault : OsFault)
  | unwritable (path : String) (fault : OsFault)
  | notRenamed (from_ to_ : String) (fault : OsFault)
  | stated (text : String)
deriving DecidableEq, Repr

namespace StoreFault

def message : StoreFault → String
  | unreadable path fault => "Failed to read whitelist file " ++ path ++ ": " ++ fault.message
  | unparsable path fault => "Failed to parse whitelist file " ++ path ++ ": " ++ fault.message
  | noDirectory path fault =>
    "Failed to create whitelist directory " ++ path ++ ": " ++ fault.message
  | unwritable path fault => "Failed to write whitelist file " ++ path ++ ": " ++ fault.message
  | notRenamed source target fault =>
    "Failed to rename whitelist file " ++ source ++ " → " ++ target ++ ": " ++ fault.message
  | stated text => text

end StoreFault

inductive RecordFault where
  | noPermission
  | stated (text : String)
deriving DecidableEq, Repr

namespace RecordFault

def message : RecordFault → String
  | noPermission => "at least one permission is required"
  | stated text => text

end RecordFault

inductive SinkFault where
  | full (lines : Nat)
  | stated (text : String)
deriving DecidableEq, Repr

namespace SinkFault

def message : SinkFault → String
  | full lines => "Memory sink full (" ++ toString lines ++ " lines)"
  | stated text => text

end SinkFault

inductive YamlFault where
  | forbiddenCharacter
  | malformed (problem : String)
  | manyDocuments
  | unknownAnchor (name : String)
  | unexpected (found : String) (wanted : String)
  | unknownKey (key : String)
  | duplicateKey (key : String)
  | stated (text : String)
deriving DecidableEq, Repr

namespace YamlFault

def message : YamlFault → String
  | forbiddenCharacter => "control characters are not allowed"
  | malformed problem => problem
  | manyDocuments => "more than one document"
  | unknownAnchor name => "unknown anchor " ++ name
  | unexpected found wanted => "invalid type: " ++ found ++ ", expected " ++ wanted
  | unknownKey key => "unknown field `" ++ key ++ "`"
  | duplicateKey key => "duplicate field `" ++ key ++ "`"
  | stated text => text

end YamlFault

end AuditTrail
