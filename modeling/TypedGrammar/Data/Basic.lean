import TypedGrammar.Number

/-!
# Data

Plain tree-shaped data without a type of its own: what node types may compute freely, and the form
in which nodes and values are described.
-/

namespace TypedGrammar

/-- A tree of lists and records over texts, numbers and truth values. Whole numbers and
floating-point numbers are different data, also where they are worth the same. -/
inductive Data
  | null
  | bool (b : Bool)
  | integer (n : Int)
  | float (x : Number.Binary64)
  | text (s : String)
  | list (items : List Data)
  | record (fields : List (String × Data))
  deriving Inhabited

namespace Data

/-- A natural number. -/
def ofNat (n : Nat) : Data :=
  .integer n

/-- A text, or nothing. -/
def ofText? : Option String → Data
  | some s => .text s
  | none => .null

/-! ### Records -/

/-- Puts a field in its place among fields that are sorted by name; it replaces one of its own
name. -/
def insertField (name : String) (d : Data) : List (String × Data) → List (String × Data)
  | [] => [(name, d)]
  | (other, e) :: rest =>
    if name = other then (name, d) :: rest
    else if name < other then (name, d) :: (other, e) :: rest
    else (other, e) :: insertField name d rest

/-- The record of the given fields, sorted by name; of several fields of one name the last one
counts. -/
def ofFields (fields : List (String × Data)) : Data :=
  .record (fields.foldl (fun sorted (name, d) => insertField name d sorted) [])

/-- The value of a field; other data than a record has no fields. -/
def field? (name : String) : Data → Option Data
  | .record fields => (fields.find? (·.1 = name)).map (·.2)
  | _ => none

/-! ### Equality -/

mutual

/-- Whether two data are the same, numbers being compared by what they are worth. -/
def same : Data → Data → Bool
  | .null, .null => true
  | .bool a, .bool b => a = b
  | .integer m, .integer n => m = n
  | .float x, .float y => x.equal y
  | .text a, .text b => a = b
  | .list as, .list bs => sameList as bs
  | .record as, .record bs => sameFields as bs
  | _, _ => false

/-- Whether two lists of data are the same. -/
def sameList : List Data → List Data → Bool
  | [], [] => true
  | a :: as, b :: bs => same a b && sameList as bs
  | _, _ => false

/-- Whether two lists of fields are the same, in the same order. -/
def sameFields : List (String × Data) → List (String × Data) → Bool
  | [], [] => true
  | (i, a) :: as, (j, b) :: bs => i = j && same a b && sameFields as bs
  | _, _ => false

end

/-! ## Data as JSON text

Data are written as JSON without blanks. Whole numbers are written in decimal; floating-point
numbers always have a fraction or an exponent, so that they can be told from whole ones. -/

/-- One character inside a JSON text. -/
def escapedJsonChar (c : Char) : String :=
  if c = '"' then "\\\""
  else if c = '\\' then "\\\\"
  else if c = '\x08' then "\\b"
  else if c = '\t' then "\\t"
  else if c = '\n' then "\\n"
  else if c = '\x0c' then "\\f"
  else if c = '\r' then "\\r"
  else if c.toNat < 32 then "\\u" ++ String.ofList (Number.hexDigits 4 c.toNat)
  else c.toString

/-- A text as JSON. -/
def quotedJson (s : String) : String :=
  "\"" ++ String.join (s.toList.map escapedJsonChar) ++ "\""

/-- How floating-point numbers are laid out in JSON text: written out for magnitudes from
`10 ^ (-5)` to below `10 ^ 16`, and with a signed exponent otherwise; ties go to the even digit. -/
def numberLayout : Number.Layout := ⟨.even, -5, 15, true⟩

mutual

/-- Data as JSON. -/
def toJson : Data → String
  | .null => "null"
  | .bool b => toString b
  | .integer n => toString n
  | .float x => x.format numberLayout
  | .text s => quotedJson s
  | .list items => "[" ++ ",".intercalate (toJsonAll items) ++ "]"
  | .record fields => "\x7b" ++ ",".intercalate (toJsonFields fields) ++ "\x7d"

/-- Each item of a list as JSON. -/
def toJsonAll : List Data → List String
  | [] => []
  | d :: rest => d.toJson :: toJsonAll rest

/-- Each field of a record as JSON, after its name. -/
def toJsonFields : List (String × Data) → List String
  | [] => []
  | (name, d) :: rest => (quotedJson name ++ ":" ++ d.toJson) :: toJsonFields rest

end

/-- Data in running text: a text as it stands, and other data as JSON. -/
def bare : Data → String
  | .text s => s
  | other => other.toJson

/-- What data say without their tag: the first field of a record, or else the data themselves, in
running text. -/
def plain : Data → String
  | .record ((_, d) :: _) => d.bare
  | other => other.bare

end Data

end TypedGrammar
