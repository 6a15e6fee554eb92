import TypedGrammar.Diagnostic
import TypedGrammar.Term.Basic
import TypedGrammar.Value

/-!
# Nodes

The nodes of value trees: located, typed values, built bottom-up from the nodes below them. The
constructors of sequences, optionals and braces remove needless layers: no sequence consists of
exactly one sequence, and no optional or brace holds a sequence of exactly one node.
-/

namespace TypedGrammar

/-- The identity of a declared node type: its number and its full name. -/
structure DeclaredNode where
  index : Nat
  typeName : String
  deriving DecidableEq, Repr

/-- The kinds of nodes. Kinds that carry a type are different kinds for different types. -/
inductive NodeKind
  | sequence
  | optional
  | brace
  | identifier
  | key (type : ValueType)
  | constant (type : ValueType)
  | literal (type : ValueType)
  | list (element : ValueType)
  | declared (owner : DeclaredNode)
  deriving DecidableEq, Repr

/-- The full name of a kind, as messages print it. -/
def NodeKind.name : NodeKind → String
  | sequence => "node_parser::nodes::sequence::SequenceNode"
  | optional => "node_parser::nodes::optional::OptionalNode"
  | brace => "node_parser::nodes::brace::BraceNode"
  | identifier => "node_parser::nodes::terminals::IdentifierNode"
  | key type => s!"node_parser::nodes::terminals::KeyTermNode<{type.name}>"
  | constant type => s!"node_parser::nodes::constant::ConstantNode<{type.name}>"
  | literal type => s!"node_parser::nodes::terminals::LiteralNode<{type.name}>"
  | list element => s!"node_parser::nodes::list::ListNode<{element.name}>"
  | declared owner => s!"node_parser::nodes::custom::ParserNode<{owner.typeName}>"

/-- One node of a value tree. -/
inductive Node
  /-- The nodes of a rule that has no kind of node of its own. -/
  | sequence (location : Location) (children : List Node)
  /-- An optional part that is not there. -/
  | absent (location : Location)
  /-- An optional part that is there. -/
  | present (location : Location) (inner : Node)
  /-- What stands between two symbols, or alone where the symbols may be left out. -/
  | brace (location : Location) (opening closing : Option String) (nested : Node)
  | identifier (location : Location) (symbol : String)
  | key (location : Location) (value : Value) (name text : String) (flags : Flags)
    (precedence : Option Precedence)
  /-- One of the texts of a constant declaration, with the value declared for it. -/
  | constant (location : Location) (value : Value)
  /-- A literal with the token it was read from. -/
  | literal (location : Location) (value : Value) (raw : String)
  /-- Repetitions of an element of one type. -/
  | list (location : Location) (element : ValueType) (children : List Node)
  /-- An occurrence of a declared node type. -/
  | declared (location : Location) (owner : DeclaredNode) (value : Value) (children : List Node)

/-- What a node holds: a plain value, or the nodes of a sequence or list. -/
inductive Payload
  | value (v : Value)
  | nodes (children : List Node)

/-- The type of what a node holds. -/
def Payload.type : Payload → ValueType
  | value v => v.type
  | nodes _ => .nodes

namespace Node

/-- Where a node begins. -/
def location : Node → Location
  | sequence l _ => l
  | absent l => l
  | present l _ => l
  | brace l _ _ _ => l
  | identifier l _ => l
  | key l _ _ _ _ _ => l
  | constant l _ => l
  | literal l _ _ => l
  | list l _ _ => l
  | declared l _ _ _ => l

/-- The kind of a node. -/
def kind : Node → NodeKind
  | sequence _ _ => .sequence
  | absent _ => .optional
  | present _ _ => .optional
  | brace _ _ _ _ => .brace
  | identifier _ _ => .identifier
  | key _ value _ _ _ _ => .key value.type
  | constant _ value => .constant value.type
  | literal _ value _ => .literal value.type
  | list _ element _ => .list element
  | declared _ owner _ _ => .declared owner

/-- What a node holds. Optionals and braces hold what is inside them; only an absent optional, or a
node around one, holds nothing. -/
def payload? : Node → Option Payload
  | sequence _ children => some (.nodes children)
  | absent _ => none
  | present _ inner => inner.payload?
  | brace _ _ _ nested => nested.payload?
  | identifier _ symbol => some (.value (.text symbol))
  | key _ value _ _ _ _ => some (.value value)
  | constant _ value => some (.value value)
  | literal _ value _ => some (.value value)
  | list _ _ children => some (.nodes children)
  | declared _ _ value _ => some (.value value)

/-- The type that a node declares for what it holds; an absent optional declares the unit type. -/
def payloadType : Node → ValueType
  | sequence _ _ => .nodes
  | absent _ => .unit
  | present _ inner => inner.payloadType
  | brace _ _ _ nested => nested.payloadType
  | identifier _ _ => .text
  | key _ value _ _ _ _ => value.type
  | constant _ value => value.type
  | literal _ value _ => value.type
  | list _ _ _ => .nodes
  | declared _ _ value _ => value.type

/-- Whether a node holds something. -/
def hasValue (node : Node) : Bool :=
  node.payload?.isSome

/-- The nodes directly below a node, for kinds that have a list of them. -/
def children : Node → List Node
  | sequence _ children => children
  | list _ _ children => children
  | declared _ _ _ children => children
  | _ => []

/-! ## Typed access -/

/-- What a node holds, or the error that it holds nothing. -/
def payload (node : Node) : Except Error Payload :=
  match node.payload? with
  | some p => .ok p
  | none => .error (.invalidState s!"node at {node.location.display} holds no value")

/-- What a node holds, as a given type. -/
def payloadAs (node : Node) (type : ValueType) : Except Error Payload := do
  let p ← node.payload
  if p.type = type then pure p
  else throw (.typeMismatch type.name node.payloadType.name)

/-- The value of a given plain type that a node holds. -/
def valueAs (node : Node) (type : ValueType) : Except Error Value := do
  match ← node.payloadAs type with
  | .value v => pure v
  | .nodes _ => throw (.typeMismatch type.name node.payloadType.name)

/-- What a node holds, if it has the given type. -/
def payloadOf? (type : ValueType) (node : Node) : Option Payload :=
  node.payload?.filter (·.type = type)

/-- The node itself, if it is of the given kind. -/
def asKind (node : Node) (kind : NodeKind) : Except Error Node :=
  if node.kind = kind then .ok node
  else .error (.typeMismatch kind.name node.payloadType.name)

/-! ## Constructors -/

mutual

/-- The children of the innermost sequence, for a tower of sequences of one sequence each; any
other node stands for itself. -/
def towerTop : Node → List Node
  | sequence _ children => towerTopOf children
  | other => [other]

/-- The children that a sequence of the given nodes has. -/
def towerTopOf : List Node → List Node
  | [only] => towerTop only
  | nodes => nodes

end

/-- A sequence; one that would consist of another sequence takes over the children of that. -/
def ofSequence (location : Location) (children : List Node) : Node :=
  sequence location (towerTopOf children)

/-- The node of a sequence of exactly one node; any other node stands for itself. -/
def soleOrSelf : Node → Node
  | sequence _ [only] => only
  | other => other

/-- An optional part. -/
def ofOptional (location : Location) (inner : Option Node) : Node :=
  match inner with
  | some node => present location node.soleOrSelf
  | none => absent location

/-- A list: the nodes of another declared type than that of the elements are left out. -/
def ofList (location : Location) (element : ValueType) (nodes : List Node) : Node :=
  list location element (nodes.filter (·.payloadType = element))

end Node

/-! ## Descriptions of nodes

Nodes as data: a record with the location, the type of what is held, whether there is a value, the
kind, and what the kind adds. A brief description counts the nodes below instead of describing them.
-/

/-- Line, column and offset. -/
def Location.toData (location : Location) : Data :=
  .list [.ofNat location.line, .ofNat location.column, .ofNat location.offset]

/-- What a node holds; a list of nodes is described by its length. -/
def Payload.toData : Payload → Data
  | value v => v.toData
  | nodes children => .ofNat children.length

namespace Node

/-- The record of a node: what all nodes have, the tag of the kind, and further fields. -/
def record (node : Node) (kind : String) (fields : List (String × Data)) : Data :=
  .ofFields ([
    ("at", node.location.toData), ("type", .text node.payloadType.name),
    ("has", .bool node.hasValue), ("k", .text kind)] ++ fields)

/-- The description of a node, given the description of the nodes below it and, for a list, of its
values. -/
def describeWith (node : Node) (below : Data) (values : List (String × Data)) : Data :=
  match node with
  | sequence _ _ => node.record "seq" [("c", below)]
  | absent _ => node.record "opt" [("c", .null)]
  | present _ _ => node.record "opt" [("c", below)]
  | brace _ opening closing _ =>
    node.record "brace" [("open", .ofText? opening), ("close", .ofText? closing), ("c", below)]
  | identifier _ symbol => node.record "ident" [("v", .text symbol)]
  | key _ value name text flags precedence =>
    node.record "key" [("v", value.toData), ("name", .text name), ("text", .text text),
      ("flags", .text flags.display), ("prec", .ofText? (precedence.map Precedence.display))]
  | constant _ value => node.record "const" [("v", value.toData)]
  | literal _ value raw => node.record "lit" [("v", value.toData), ("raw", .text raw)]
  | list _ element children =>
    node.record "list" ([("of", .text element.tag), ("len", .ofNat children.length),
      ("c", below)] ++ values)
  | declared _ owner value _ =>
    node.record "node" [("n", .ofNat owner.index), ("v", value.toData), ("c", below)]

/-- The values of the elements of a list. -/
def elementValues (element : ValueType) (children : List Node) : Data :=
  .list ((children.filterMap (payloadOf? element)).map Payload.toData)

/-- A description that only counts the nodes directly below; the values of a list are left out
unless they are nodes. -/
def brief (node : Node) : Data :=
  match node with
  | present _ _ => node.describeWith (.ofNat 1) []
  | brace _ _ _ _ => node.describeWith (.ofNat 1) []
  | list _ .nodes children =>
    node.describeWith (.ofNat children.length) [("values", elementValues .nodes children)]
  | _ => node.describeWith (.ofNat node.children.length) []

mutual

/-- The description of a node and of all nodes below it. -/
def describe : Node → Data
  | sequence l children => (sequence l children).describeWith (.list (describeAll children)) []
  | present l inner => (present l inner).describeWith inner.describe []
  | brace l o c nested => (brace l o c nested).describeWith nested.describe []
  | list l element children =>
    (list l element children).describeWith (.list (describeAll children))
      [("values", elementValues element children)]
  | declared l owner value children =>
    (declared l owner value children).describeWith (.list (describeAll children)) []
  | other => other.describeWith .null []

/-- The description of each node of a list. -/
def describeAll : List Node → List Data
  | [] => []
  | node :: rest => node.describe :: describeAll rest

end

end Node

end TypedGrammar
