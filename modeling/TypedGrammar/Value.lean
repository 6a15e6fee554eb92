import TypedGrammar.Data.Basic
import TypedGrammar.Number
import TypedGrammar.Text.Quoted

/-!
# Typed values

The values that key terms, literals, constants and node types carry, and their types. A value knows
its type, so reading it as a type succeeds exactly for that one.
-/

namespace TypedGrammar

/-- The types that a node can declare for what it holds. -/
inductive ValueType
  | int64
  | int32
  | float64
  | bool
  | char
  | text
  | unit
  | data
  /-- A list of nodes: what sequences and lists hold. -/
  | nodes
  deriving DecidableEq, Repr

namespace ValueType

/-- The full name of a type, as messages print it. -/
def name : ValueType → String
  | .int64 => "i64"
  | .int32 => "i32"
  | .float64 => "f64"
  | .bool => "bool"
  | .char => "char"
  | .text => "alloc::string::String"
  | .unit => "()"
  | .data => "driver::types::Val"
  | .nodes => "alloc::vec::Vec<alloc::boxed::Box<dyn node_parser::nodes::value::ValueNode>>"

/-- The short tag under which values of the type are described. -/
def tag : ValueType → String
  | .int64 => "i64"
  | .int32 => "i32"
  | .float64 => "f64"
  | .bool => "bool"
  | .char => "char"
  | .text => "str"
  | .unit => "unit"
  | .data => "val"
  | .nodes => "nodes"

end ValueType

/-- A value of one of the plain types. -/
inductive Value
  | int64 (n : Int64)
  | int32 (n : Int32)
  | float64 (x : Number.Binary64)
  | bool (b : Bool)
  | char (c : Char)
  | text (s : String)
  | unit
  | data (d : Data)

namespace Value

/-- The type of a value. -/
def type : Value → ValueType
  | .int64 _ => .int64
  | .int32 _ => .int32
  | .float64 _ => .float64
  | .bool _ => .bool
  | .char _ => .char
  | .text _ => .text
  | .unit => .unit
  | .data _ => .data

/-- Whether two values have the same type and are equal under the equality of that type. -/
def equal : Value → Value → Bool
  | .int64 a, .int64 b => a = b
  | .int32 a, .int32 b => a = b
  | .float64 a, .float64 b => a.equal b
  | .bool a, .bool b => a = b
  | .char a, .char b => a = b
  | .text a, .text b => a = b
  | .unit, .unit => true
  | .data a, .data b => a.same b
  | _, _ => false

/-- Values of different types are never equal. -/
theorem type_eq_of_equal {a b : Value} (h : a.equal b = true) : a.type = b.type := by
  cases a <;> cases b <;> simp_all [equal, type]

end Value

/-! ## Display -/

mutual

/-- Data in messages: the kind of each part, then its content. -/
def Data.display : Data → String
  | .null => "Null"
  | .bool b => s!"Bool({b})"
  | .integer n => s!"Number({n})"
  | .float x => s!"Number({x.format Data.numberLayout})"
  | .text s => s!"String({Text.quoted s})"
  | .list items => "Array [" ++ ", ".intercalate (Data.displayAll items) ++ "]"
  | .record fields => "Object \x7b" ++ ", ".intercalate (Data.displayFields fields) ++ "\x7d"

/-- The display of each item. -/
def Data.displayAll : List Data → List String
  | [] => []
  | d :: rest => d.display :: Data.displayAll rest

/-- The display of each field, after its quoted name. -/
def Data.displayFields : List (String × Data) → List String
  | [] => []
  | (name, d) :: rest => s!"{Text.quoted name}: {d.display}" :: Data.displayFields rest

end

/-- A value in messages. -/
def Value.display : Value → String
  | .int64 n => toString n.toInt
  | .int32 n => toString n.toInt
  | .float64 x => x.display
  | .bool b => toString b
  | .char c => Text.quotedChar c
  | .text s => Text.quoted s
  | .unit => "()"
  | .data d => s!"Val({d.display})"

/-! ## Tagged form -/

/-- The 16 hexadecimal digits of 64 bits. -/
def bitsText (bits : UInt64) : String :=
  String.ofList (Number.hexDigits 16 bits.toNat)

/-- The bits that one to sixteen hexadecimal digits stand for. -/
def readBits (text : String) : Option UInt64 :=
  if text.isEmpty || 16 < text.length then none
  else (Number.readHex text.toList).map UInt64.ofNat

/-- A value as data: a record whose one field is named for the type; data stand for themselves. -/
def Value.toData : Value → Data
  | .int64 n => .record [("i64", .text (toString n.toInt))]
  | .int32 n => .record [("i32", .text (toString n.toInt))]
  | .float64 x => .record [("f64", .text (bitsText x.bits))]
  | .bool b => .record [("bool", .bool b)]
  | .char c => .record [("char", .text c.toString)]
  | .text s => .record [("str", .text s)]
  | .unit => .record [("unit", .null)]
  | .data d => d

/-- The text of a value without its tag. -/
def Value.plain (v : Value) : String :=
  v.toData.plain

/-- The text in the field of a tag. -/
def Data.taggedText? (tag : String) (d : Data) : Option String :=
  match d.field? tag with
  | some (.text s) => some s
  | _ => none

/-- Reads a value of a type from data: a tagged value must carry the tag of the type; the unit
value and data are read from anything, a list of nodes from nothing. -/
def ValueType.read (type : ValueType) (d : Data) : Option Value :=
  match type with
  | .int64 => ((d.taggedText? "i64").bind (Number.readInt64 ·.toList)).map .int64
  | .int32 => ((d.taggedText? "i32").bind (Number.readInt32 ·.toList)).map .int32
  | .float64 => ((d.taggedText? "f64").bind readBits).map (.float64 ⟨·⟩)
  | .bool =>
    match d.field? "bool" with
    | some (.bool b) => some (.bool b)
    | _ => none
  | .char => ((d.taggedText? "char").bind (·.toList.head?)).map .char
  | .text => (d.taggedText? "str").map .text
  | .unit => some .unit
  | .data => some (.data d)
  | .nodes => none

/-- What is read as a type has that type. -/
theorem ValueType.type_of_read {type : ValueType} {d : Data} {v : Value}
    (h : type.read d = some v) : v.type = type := by
  cases type <;> simp only [ValueType.read, Option.map_eq_some_iff, reduceCtorEq] at h
  case bool => split at h <;> simp_all [Value.type]; subst h; rfl
  case unit => cases h; rfl
  case data => cases h; rfl
  all_goals obtain ⟨_, _, rfl⟩ := h; rfl

/-- Reads a value from the text of a literal: 64-bit integers and floating-point numbers are
written in decimal, a text stands for itself, and no other type has literals. -/
def ValueType.readText (type : ValueType) (text : String) : Option Value :=
  match type with
  | .int64 => (Number.readInt64 text.toList).map .int64
  | .float64 => (Number.Binary64.read text.toList).map .float64
  | .text => some (.text text)
  | _ => none

end TypedGrammar
