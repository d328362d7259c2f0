import AuditTrail.Text.Quoted

/-!
# JSON values

The values of the format in which whitelists are stored.  The members of an object keep the order
and the repetitions of the document that they were read from, because what a repeated key means is
for the reader of the object to say.
-/

namespace AuditTrail

inductive Json where
  | null
  | bool (b : Bool)
  | integer (n : Int)
  /-- The value `mantissa * 10 ^ exponent`, for a number that is written with a point or an
  exponent. -/
  | decimal (mantissa exponent : Int)
  | string (s : String)
  | array (items : List Json)
  | object (members : List (String × Json))
deriving Inhabited

namespace Json

def describe : Json → String
  | null => "null"
  | bool b => "boolean `" ++ (if b then "true" else "false") ++ "`"
  | integer n => "integer `" ++ toString n ++ "`"
  | decimal mantissa exponent =>
    "floating point `" ++ toString mantissa ++ "e" ++ toString exponent ++ "`"
  | string s => "string " ++ Text.quote s
  | array _ => "sequence"
  | object _ => "map"

end Json
end AuditTrail
