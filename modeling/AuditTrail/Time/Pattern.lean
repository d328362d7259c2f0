/-!
# Time patterns

A pattern is literal text with specifiers that begin with `%`.  `specifiers` is the table of all
spellings after the `%`; no spelling begins another, so reading one never needs to look further.
-/

namespace AuditTrail.Time

inductive Quantity where
  | year
  | century
  | yearOfCentury
  | quarter
  | month
  | day
  | weekFromSunday
  | weekFromMonday
  | weekYear
  | weekYearOfCentury
  | week
  /-- From 0, for Sunday. -/
  | weekdayFromSunday
  /-- From 1, for Monday. -/
  | weekdayFromMonday
  | dayOfYear
  | hour
  | hourOfHalfDay
  | minute
  | second
  | nanosecond
  | unixSeconds
deriving DecidableEq, Repr

inductive Padding where
  | zeros
  | spaces
  | none
deriving DecidableEq, Repr

/-- How much of an offset is written, and whether colons separate its parts. -/
inductive OffsetForm where
  | hours
  | minutes (colon : Bool)
  | seconds
deriving DecidableEq, Repr

inductive Item where
  | literal (text : List Char)
  | quantity (quantity : Quantity) (padding : Padding)
  | monthName (full : Bool)
  | weekdayName (full : Bool)
  | halfDay (upper : Bool)
  /-- A dot and three digits, or nothing when the second is whole. -/
  | fraction
  | fractionDigits (count : Nat) (dot : Bool)
  | zoneName
  | offset (form : OffsetForm)
  /-- Accepted in a pattern, but there is nothing to write for it. -/
  | unwritable
deriving DecidableEq, Repr

namespace Pattern

open Item

def zeroPadded (q : Quantity) : Item := quantity q .zeros

def text (s : String) : Item := literal s.toList

def isoDate : List Item :=
  [zeroPadded .year, text "-", zeroPadded .month, text "-", zeroPadded .day]

def hourMinute : List Item := [zeroPadded .hour, text ":", zeroPadded .minute]

def clockTime : List Item := hourMinute ++ [text ":", zeroPadded .second]

def slashDate : List Item :=
  [zeroPadded .month, text "/", zeroPadded .day, text "/", zeroPadded .yearOfCentury]

def spacedDay : Item := quantity .day .spaces

def quantities : List (Char × Quantity × Padding) :=
  [('Y', .year, .zeros), ('C', .century, .zeros), ('y', .yearOfCentury, .zeros),
   ('q', .quarter, .none), ('m', .month, .zeros), ('d', .day, .zeros), ('e', .day, .spaces),
   ('w', .weekdayFromSunday, .none), ('u', .weekdayFromMonday, .none),
   ('U', .weekFromSunday, .zeros), ('W', .weekFromMonday, .zeros),
   ('G', .weekYear, .zeros), ('g', .weekYearOfCentury, .zeros), ('V', .week, .zeros),
   ('j', .dayOfYear, .zeros), ('H', .hour, .zeros), ('k', .hour, .spaces),
   ('I', .hourOfHalfDay, .zeros), ('l', .hourOfHalfDay, .spaces), ('M', .minute, .zeros),
   ('S', .second, .zeros), ('f', .nanosecond, .zeros), ('s', .unixSeconds, .none)]

def modifiers : List (Char × Padding) := [('-', .none), ('_', .spaces), ('0', .zeros)]

/-- The specifiers that take no modifier. -/
def unmodified : List (String × List Item) :=
  [("b", [monthName false]), ("h", [monthName false]), ("B", [monthName true]),
   ("a", [weekdayName false]), ("A", [weekdayName true]),
   ("D", slashDate), ("x", slashDate), ("F", isoDate),
   ("v", [spacedDay, text "-", monthName false, text "-", zeroPadded .year]),
   ("P", [halfDay false]), ("p", [halfDay true]),
   (".f", [fraction]), (".3f", [fractionDigits 3 true]), (".6f", [fractionDigits 6 true]),
   (".9f", [fractionDigits 9 true]), ("3f", [fractionDigits 3 false]),
   ("6f", [fractionDigits 6 false]), ("9f", [fractionDigits 9 false]),
   ("R", hourMinute), ("T", clockTime), ("X", clockTime),
   ("r", [zeroPadded .hourOfHalfDay, text ":", zeroPadded .minute, text ":", zeroPadded .second,
          text " ", halfDay true]),
   ("c", [weekdayName false, text " ", monthName false, text " ", spacedDay, text " "] ++
         clockTime ++ [text " ", zeroPadded .year]),
   ("+", isoDate ++ [text "T"] ++ clockTime ++ [fraction, offset (.minutes true)]),
   ("Z", [zoneName]), ("z", [offset (.minutes false)]), (":z", [offset (.minutes true)]),
   ("::z", [offset .seconds]), (":::z", [offset .hours]), ("#z", [unwritable]),
   ("t", [text "\t"]), ("n", [text "\n"]), ("%", [text "%"])]

def specifiers : List (List Char × List Item) :=
  unmodified.map (fun (spelling, items) => (spelling.toList, items)) ++
  quantities.map (fun (c, q, padding) => ([c], [quantity q padding])) ++
  modifiers.flatMap fun (m, padding) =>
    quantities.map fun (c, q, _) => ([m, c], [quantity q padding])

/-- The specifier that begins `s`, which is what follows a `%`, and the text after it. -/
def specifier? (s : List Char) : Option (List Item × List Char) :=
  specifiers.findSome? fun (spelling, items) =>
    if spelling.isPrefixOf s then some (items, s.drop spelling.length) else none

theorem length_specifier? {s rest : List Char} {items : List Item}
    (h : specifier? s = some (items, rest)) : rest.length ≤ s.length := by
  obtain ⟨⟨spelling, its⟩, _, hs⟩ := List.exists_of_findSome?_eq_some h
  simp only [Option.ite_none_right_eq_some, Option.some.injEq, Prod.mk.injEq] at hs
  rw [← hs.2.2, List.length_drop]
  omega

/-- The items of a pattern; `none` where a `%` begins no specifier. -/
def items? (pattern : List Char) : Option (List Item) :=
  match pattern with
  | [] => some []
  | c :: cs =>
    if c = '%' then
      match _h : specifier? cs with
      | some (items, rest) => (items? rest).map (items ++ ·)
      | none => none
    else (items? cs).map (literal [c] :: ·)
termination_by pattern.length
decreasing_by
  · have := length_specifier? _h
    simp
    omega
  · simp

end Pattern
end AuditTrail.Time
