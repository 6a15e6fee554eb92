import TypedGrammar.Text.CharacterClass

/-!
# Attributes of terms

What is said of the terms of a grammar besides what they match: their numbers, how operators bind,
the marks that change how a term takes part in parsing and in the building of values, and the letter
case of identifiers.  The comments between terms are here too.
-/

namespace TypedGrammar

/-! ## Numbers of terms

Terms are numbered in the order in which a grammar registers them. -/

/-- How many terms a grammar can have. -/
def termLimit : Nat := 65534

/-- The number of a term inside one grammar. -/
structure TermIndex where
  value : Nat
  value_lt : value < termLimit
  deriving DecidableEq, Repr

namespace TermIndex

/-- The index with a given number, if terms can have it. -/
def ofNat? (n : Nat) : Option TermIndex :=
  if h : n < termLimit then some ⟨n, h⟩ else none

/-- The index with a given number, where numbers are counted modulo the limit. -/
def ofNat (n : Nat) : TermIndex :=
  ⟨n % termLimit, Nat.mod_lt n (by decide)⟩

/-- `#n`. -/
def display (index : TermIndex) : String :=
  s!"#{index.value}"

end TermIndex

/-! ## Precedence of operators

How strongly an operator binds, and how operators that bind alike are grouped. -/

/-- How operators of one level are grouped; `neutral` ones are grouped like `left` ones. -/
inductive Associativity
  | left
  | right
  | neutral
  deriving DecidableEq, Repr

/-- The name of an associativity. -/
def Associativity.display : Associativity → String
  | .left => "left"
  | .right => "right"
  | .neutral => "neutral"

/-- The binding strength of an operator: higher levels bind tighter. -/
structure Precedence where
  level : Int
  associativity : Associativity
  deriving DecidableEq, Repr

/-- `level associativity`. -/
def Precedence.display (p : Precedence) : String :=
  s!"{p.level} {p.associativity.display}"

/-! ## Flags

Marks that change how a term takes part in parsing and in the building of values. -/

/-- One mark of a term. -/
inductive Flag
  /-- What the term matches is spliced into its parent. -/
  | transient
  /-- The term is matched but has no node. -/
  | noNode
  | keyword
  /-- The text of the term cannot be an identifier. -/
  | reserved
  /-- The term never appears among nodes. -/
  | punctuation
  | operator
  | openBrace
  | closeBrace
  | literal
  | list
  deriving DecidableEq, Repr

namespace Flag

/-- All flags, in the order in which they are shown. -/
def all : List Flag :=
  [transient, noNode, keyword, reserved, punctuation, operator, openBrace, closeBrace, literal,
    list]

/-- The bit of a flag in a set. -/
def bit : Flag → BitVec 10
  | transient => 1
  | noNode => 2
  | keyword => 4
  | reserved => 8
  | punctuation => 16
  | operator => 32
  | openBrace => 64
  | closeBrace => 128
  | literal => 256
  | list => 512

/-- The name of a flag. -/
def name : Flag → String
  | transient => "transient"
  | noNode => "no-ast"
  | keyword => "keyword"
  | reserved => "reserved"
  | punctuation => "punctuation"
  | operator => "operator"
  | openBrace => "open-brace"
  | closeBrace => "close-brace"
  | literal => "literal"
  | list => "list"

/-- The flag of a name. -/
def ofName? (name : String) : Option Flag :=
  all.find? (·.name = name)

end Flag

/-- A set of flags. -/
structure Flags where
  bits : BitVec 10
  deriving DecidableEq, Repr

namespace Flags

/-- No flag at all. -/
def none : Flags := ⟨0⟩

/-- All flags of either set. -/
def union (a b : Flags) : Flags := ⟨a.bits ||| b.bits⟩

/-- The set of the given flags. -/
def ofList (flags : List Flag) : Flags :=
  flags.foldl (fun set flag => set.union ⟨flag.bit⟩) none

/-- Whether `a` has every flag of `b`. -/
def contains (a b : Flags) : Bool :=
  a.bits &&& b.bits = b.bits

/-- Whether the set has a flag. -/
def has (flags : Flags) (flag : Flag) : Bool :=
  flags.contains ⟨flag.bit⟩

/-- Whether the set has no flag. -/
def isEmpty (flags : Flags) : Bool :=
  flags.bits = 0

/-- `a` with the flags of `b` added, or taken away. -/
def assign (a b : Flags) (on : Bool) : Flags :=
  if on then a.union b else ⟨a.bits &&& ~~~b.bits⟩

/-- The names of the flags, in brackets. -/
def display (flags : Flags) : String :=
  "[" ++ "|".intercalate ((Flag.all.filter flags.has).map Flag.name) ++ "]"

end Flags

/-! ## Letter case of identifiers -/

/-- A rule for the letter case of identifiers. -/
inductive LetterCase
  | any
  | firstUpper
  | firstLower
  | allUpper
  | allLower
  deriving DecidableEq, Repr

namespace LetterCase

/-- Whether a word obeys the rule. `allUpper` and `allLower` only forbid letters of the other
case, so a word without letters obeys both. -/
def allows (case : LetterCase) (word : String) : Bool :=
  match case with
  | any => true
  | firstUpper => word.toList.head?.any Text.uppercase.contains
  | firstLower => word.toList.head?.any Text.lowercase.contains
  | allUpper => !word.toList.any Text.lowercase.contains
  | allLower => !word.toList.any Text.uppercase.contains

/-- The name of the rule. -/
def display : LetterCase → String
  | any => "None"
  | firstUpper => "FirstUpper"
  | firstLower => "FirstLower"
  | allUpper => "AllUpper"
  | allLower => "AllLower"

end LetterCase

/-! ## Comments

What is skipped between tokens besides white space. -/

/-- A comment begins with `start` and ends at the first of `ends`. -/
structure Comment where
  name : String
  start : String
  ends : List String
  deriving DecidableEq, Repr

namespace Comment

/-- A comment that ends at a line break. -/
def line (name start : String) : Comment :=
  ⟨name, start, ["\n", "\r"]⟩

/-- A comment between two symbols. -/
def block (name start stop : String) : Comment :=
  ⟨name, start, [stop]⟩

/-- Whether all the ends are line breaks; such a comment stops before the line break. -/
def isLine (comment : Comment) : Bool :=
  !comment.ends.isEmpty && comment.ends.all fun e => e = "\n" || e = "\r" || e = "\r\n"

end Comment

end TypedGrammar
