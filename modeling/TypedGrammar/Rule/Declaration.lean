import TypedGrammar.Draft.Step
import TypedGrammar.Text.Quoted

/-!
# Declarations of terminals

Identifiers, literals, constants and operators are declared once and may be used in any rule; a
grammar registers each declaration at its first use. The full name of a declaration tells it from
all others.
-/

namespace TypedGrammar

/-- The short form of a full type name: its last segment, without type arguments. -/
def shortName (typeName : String) : String :=
  String.ofList ((typeName.toList.takeWhile (· != '<')).reverse.takeWhile (· != ':')).reverse

/-- The type name of a declaration, and the name of the term that it is registered as. -/
structure Declaration where
  typeName : String
  name : String

/-! ## Identifiers -/

/-- A declaration of identifiers in one letter case. -/
structure IdentifierDeclaration extends Declaration where
  case : LetterCase

/-- Identifiers in any letter case. -/
def IdentifierDeclaration.any : IdentifierDeclaration where
  typeName := "node_parser::nodes::terminals::Identifier"
  name := "identifier"
  case := .any

/-! ## Literals -/

/-- How the text of a literal token becomes a value. -/
inductive Conversion
  /-- The text as it stands is read as a value of the type. -/
  | parse
  /-- The quotes are removed and the escapes resolved before reading. -/
  | unquote (quote : Char)
  /-- No token is accepted. -/
  | reject
  deriving DecidableEq, Repr

/-- The value of a token, if the type has one for it. -/
def Conversion.read (conversion : Conversion) (type : ValueType) (raw : String) : Option Value :=
  match conversion with
  | parse => type.readText raw
  | unquote quote => (Text.unquote raw quote).bind type.readText
  | reject => none

/-- A declaration of literals: how their tokens look and what they are worth. -/
structure LiteralDeclaration extends Declaration where
  type : ValueType
  form : LiteralForm
  conversion : Conversion

namespace LiteralDeclaration

/-- Decimal integers of 64 bits. -/
def integer : LiteralDeclaration where
  typeName := "node_parser::nodes::terminals::IntegerLiteral"
  name := "integer"
  type := .int64
  form := .integer
  conversion := .parse

/-- Decimal numbers with an optional fraction and exponent. -/
def number : LiteralDeclaration where
  typeName := "node_parser::nodes::terminals::NumberLiteral"
  name := "number"
  type := .float64
  form := .number
  conversion := .parse

/-- Texts between double quotes. -/
def string : LiteralDeclaration where
  typeName := "node_parser::nodes::terminals::StringLiteral"
  name := "string"
  type := .text
  form := .quoted '"'
  conversion := .unquote '"'

/-- The value of a token. -/
def read (type : LiteralDeclaration) (raw : String) : Option Value :=
  type.conversion.read type.type raw

/-- The literal of one occurrence; a token without a value fails the parse where it stands. -/
def maker (type : LiteralDeclaration) : Maker :=
  .literal fun occurrence =>
    let raw := occurrence.token.getD ""
    match type.read raw with
    | some value => .ok (value, raw)
    | none => .error (.rejectedAt occurrence.location s!"invalid {type.name} literal `{raw}`")

end LiteralDeclaration

/-! ## Constants and operators -/

/-- One text of a constant declaration, with its value and the name of its key term. -/
structure ConstantEntry where
  text : String
  value : Value
  name : String

/-- A declaration of texts that stand for values. -/
structure ConstantDeclaration extends Declaration where
  type : ValueType
  constants : List ConstantEntry
  /-- Keywords are reserved, so identifiers cannot be one of the texts. -/
  keywords : Bool
  /-- The key term that was matched takes the place of the constant. -/
  transient : Bool

/-- One operator of a declaration. -/
structure OperatorEntry where
  text : String
  value : Value
  name : String
  precedence : Precedence

/-- A declaration of operators. Its matches are always spliced: the key term of the operator
stands next to its operands. -/
structure OperatorDeclaration extends Declaration where
  operators : List OperatorEntry

/-! ## Registration -/

namespace Drafting

/-- A choice between key terms. -/
def choiceOf : List TermIndex → Shape
  | [] => .empty
  | first :: rest => rest.foldl (fun shape index => shape ||| .term index) (.term first)

/-- The term of a declaration: the one it is registered as, or else the result of `make`. -/
def declaredOr (typeName : String) (make : Drafting TermIndex) : Drafting TermIndex := do
  match ← declared? typeName with
  | some index => return index
  | none => make

/-- The term of an identifier declaration. -/
def identifier (type : IdentifierDeclaration) : Drafting TermIndex :=
  declaredOr type.typeName <| declare type.typeName {
    name := type.name
    kind := .identifier type.case
    maker := some (.identifier fun occurrence => .ok (occurrence.token.getD "")) }

/-- The term of a literal declaration. -/
def literal (type : LiteralDeclaration) : Drafting TermIndex :=
  declaredOr type.typeName <| declare type.typeName {
    name := type.name
    kind := .literal type.form
    flags := .ofList [.literal]
    maker := some type.maker }

/-- The term of a constant declaration, a choice between its texts. -/
def constant (type : ConstantDeclaration) : Drafting TermIndex :=
  declaredOr type.typeName do
    let index ← declare type.typeName {
      name := type.name
      kind := .rule none
      flags := if type.transient then .ofList [.transient] else .none
      maker := some (.constant type.type) }
    let flags := if type.keywords then .ofList [.keyword, .reserved] else .none
    let keys ← type.constants.mapM fun c => key ⟨c.name, c.text, c.value, flags, none⟩
    setShape index (choiceOf keys)
    return index

/-- The term of an operator declaration, a choice between its operators. -/
def operator (type : OperatorDeclaration) : Drafting TermIndex :=
  declaredOr type.typeName do
    let index ← declare type.typeName {
      name := type.name
      kind := .rule none
      flags := .ofList [.transient] }
    let keys ← type.operators.mapM fun o =>
      key ⟨o.name, o.text, o.value, .ofList [.operator], some o.precedence⟩
    setShape index (choiceOf keys)
    return index

end Drafting

end TypedGrammar
