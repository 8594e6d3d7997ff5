/-!
# Texts of values

The notation in which values are shown to people: a record is its name and its
fields in braces, a list stands in brackets, and a value that wraps another is its
name with that in parentheses.
-/

namespace LoraRelay.Record

/-- The parts with commas between. -/
def join (parts : List String) : String := ", ".intercalate parts

/-- Text in braces. -/
def braces (inner : String) : String := "\x7b " ++ inner ++ " \x7d"

/-- A record with named fields. -/
def record (name : String) (fields : List (String × String)) : String :=
  name ++ " " ++ braces (join (fields.map fun (field, value) => field ++ ": " ++ value))

/-- A value that wraps another. -/
def wrap (name inner : String) : String := name ++ "(" ++ inner ++ ")"

/-- A list. -/
def list (items : List String) : String := "[" ++ join items ++ "]"

/-- A value that may be missing. -/
def optional : Option String → String
  | none => "None"
  | some text => wrap "Some" text

/-- Bytes as a list of decimal numbers. -/
def numbers (bs : List UInt8) : String := list (bs.map fun b => toString b.toNat)

end LoraRelay.Record
