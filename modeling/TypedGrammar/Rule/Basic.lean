import TypedGrammar.Rule.Declaration

/-!
# Rules

A rule describes a shape: evaluated on a draft it registers the terms that it needs and yields
the shape. Node types are declared by number in one family, so that their rules may refer to each
other and to themselves.
-/

namespace TypedGrammar

/-- A description of a shape. -/
inductive Rule
  /-- A shape that is at hand. -/
  | shape (s : Shape)
  | hint (h : Hint)
  /-- The node type of a number. -/
  | node (number : Nat)
  | identifier (type : IdentifierDeclaration)
  | literal (type : LiteralDeclaration)
  | constant (type : ConstantDeclaration)
  | operator (type : OperatorDeclaration)
  | key (request : KeyRequest)
  | braces (opening : String) (inside : Rule) (closing : String) (omissible : Bool)
  | optional (inner : Rule)
  | withoutNode (inner : Rule)
  | list (element : ValueType) (item : Rule) (bounds : Bounds)
  | listOf (element : ValueType) (item delimiter : Rule) (bounds : Bounds)
  | custom (name : String) (inner : Rule) (maker : Maker)
  /-- All items one after the other. -/
  | all (items : List Rule)
  | followedBy (first second : Rule)
  /-- The first of the items that matches. -/
  | firstOf (items : List Rule)
  | star (item : Rule)
  | plus (item : Rule)
  | orEmpty (inner : Rule)
  /-- A sequence of exactly these items, without splicing. -/
  | sequence (items : List Rule)
  /-- A choice of exactly these alternatives, without splicing. -/
  | choice (items : List Rule)
  | repeated (item : Rule) (bounds : Bounds)
  | separated (item delimiter : Rule) (bounds : Bounds)
  /-- Fails. -/
  | fail (name message : String)
  /-- The inner rule, or nothing if it fails; what it registered stays. -/
  | attempt (inner : Rule)

namespace Rule

/-- A key term whose name defaults to its text. -/
def keyTerm (text : String) (value : Value) (name : Option String) (flags : Flags)
    (precedence : Option Precedence) : Rule :=
  key ⟨name.getD text, text, value, flags, precedence⟩

/-- A key term valued with its own text. -/
def textTerm (text : String) (flags : Flags) (precedence : Option Precedence) : Rule :=
  keyTerm text (.text text) none flags precedence

/-- A key term without flags, valued with its own text. -/
def term (text : String) : Rule :=
  textTerm text .none none

/-- The flags of reserved words. -/
def keywordFlags : Flags := .ofList [.keyword, .reserved]

/-- A reserved word. -/
def keyword (text : String) : Rule :=
  textTerm text keywordFlags none

/-- A symbol that is matched but has no node. -/
def punctuation (text : String) : Rule :=
  textTerm text (.ofList [.punctuation]) none

/-- An operator, valued with its own text. -/
def operatorSymbol (text : String) (precedence : Option Precedence) : Rule :=
  textTerm text (.ofList [.operator]) precedence

end Rule

/-- What is done after the shape of a node type is stored. -/
inductive Afterthought
  /-- Sets or clears flags of the term of the node type. -/
  | setFlags (flags : Flags) (on : Bool)
  /-- Evaluates a rule for what it registers. -/
  | evaluate (rule : Rule)

/-- A declared node type: a rule, and how the value of an occurrence is computed from the nodes of
its children. The result must be a value of the declared type. -/
structure NodeDeclaration extends Declaration where
  number : Nat
  valueType : ValueType
  rule : Rule
  afterthoughts : List Afterthought
  build : Contents → Except Error Data

namespace NodeDeclaration

/-- The identity of the nodes of the type. -/
def identity (type : NodeDeclaration) : DeclaredNode :=
  ⟨type.number, type.typeName⟩

/-- The value of one occurrence. -/
def value (type : NodeDeclaration) (contents : Contents) : Except Error Value := do
  match type.valueType.read (← type.build contents) with
  | some v => pure v
  | none => throw (contents.refused "build result has another type")

/-- The rule of a node type before its shape is known. -/
def pending (type : NodeDeclaration) : Entry where
  name := type.name
  kind := .rule none
  maker := some (.declared type.identity type.value)

end NodeDeclaration

/-! ## Definitions of node types

Evaluation of rules, and the definition of the node types to which they refer. A node type is
registered before its rule is evaluated, so references from inside the rule find it; each type is
defined once, however the rules refer to each other. -/

namespace Rule

mutual

/-- Evaluates a rule; `define` yields the term of a node type. Arguments are evaluated from left to
right before the step that they belong to, and the first failure ends the evaluation. -/
def eval (define : Nat → Drafting TermIndex) : Rule → Drafting Shape
  | shape s => return s
  | hint h => return .hint h
  | node number => .term <$> define number
  | identifier type => .term <$> Drafting.identifier type
  | literal type => .term <$> Drafting.literal type
  | constant type => .term <$> Drafting.constant type
  | operator type => .term <$> Drafting.operator type
  | key request => .term <$> Drafting.key request
  | braces opening inside closing omissible => do
    Drafting.braces opening (← eval define inside) closing omissible
  | optional inner => do Drafting.optional (← eval define inner)
  | withoutNode inner => do Drafting.withoutNode (← eval define inner)
  | list element item bounds => do Drafting.list element (← eval define item) none bounds
  | listOf element item delimiter bounds => do
    let item ← eval define item
    Drafting.list element item (some (← eval define delimiter)) bounds
  | custom name inner maker => do Drafting.custom name (← eval define inner) maker
  | all items => do return (← evalAll define items).foldl (· ++ ·) .empty
  | followedBy first second => do
    let a ← eval define first
    return a ++ (← eval define second)
  | firstOf items => do
    match ← evalAll define items with
    | [] => return .empty
    | first :: rest => return rest.foldl (· ||| ·) first
  | star item => do return (← eval define item).star
  | plus item => do return (← eval define item).plus
  | orEmpty inner => do return (← eval define inner).orEmpty
  | sequence items => do return .sequence (← evalAll define items)
  | choice items => do return .choice (← evalAll define items)
  | repeated item bounds => do return .repeated (← eval define item) bounds
  | separated item delimiter bounds => do
    let item ← eval define item
    return .separated item (← eval define delimiter) bounds
  | fail name message => throw (.rule name message)
  | attempt inner => tryCatch (eval define inner) fun _ => return .empty

/-- Evaluates the rules of a list, one after the other. -/
def evalAll (define : Nat → Drafting TermIndex) : List Rule → Drafting (List Shape)
  | [] => return []
  | rule :: rest => do
    let shape ← eval define rule
    return shape :: (← evalAll define rest)

end

end Rule

/-- Does what is left to do once the shape of a node type is stored. -/
def Afterthought.run (define : Nat → Drafting TermIndex) (index : TermIndex) :
    Afterthought → Drafting Unit
  | setFlags flags on => Drafting.setFlags index flags on
  | evaluate rule => discard (rule.eval define)

namespace Drafting

/-- The term of a node type of a family; `depth` bounds how many definitions are under way. -/
def defineNodeWithin (types : Array NodeDeclaration) : Nat → Nat → Drafting TermIndex
  | 0, number => throw (.invalidState s!"node type {number} cannot be defined")
  | depth + 1, number =>
    match types[number]? with
    | none => throw (.invalidState s!"node type {number} is not declared")
    | some type =>
      declaredOr type.typeName do
        let index ← declare type.typeName type.pending
        setShape index (← type.rule.eval (defineNodeWithin types depth))
        type.afterthoughts.forM (·.run (defineNodeWithin types depth) index)
        return index

/-- The term of a node type of a family, defined at the first request. Each definition under way
has registered another type of the family, so no more than all of them are under way at once. -/
def defineNode (types : Array NodeDeclaration) (number : Nat) : Drafting TermIndex :=
  defineNodeWithin types (types.size + 1) number

end Drafting

end TypedGrammar
