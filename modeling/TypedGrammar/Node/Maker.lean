import TypedGrammar.Node.Basic

/-!
# Makers of nodes

A position of a tree at which a node is to be made, and the ways to make one.
-/

namespace TypedGrammar

/-! ## Contents

What a declared node type computes its value from: the location of the occurrence and the nodes
below it. -/

/-- The nodes of one occurrence of a declared node type. -/
structure Contents where
  location : Location
  children : List Node

namespace Contents

/-- The error that this occurrence is refused. -/
def refused (contents : Contents) (message : String) : Error :=
  .node contents.location message

/-- The child at an index. -/
def child (contents : Contents) (index : Nat) : Except Error Node :=
  match contents.children[index]? with
  | some node => .ok node
  | none => .error (.invalidState
      (s!"child {index} requested at {contents.location.display} but only "
        ++ s!"{contents.children.length} present"))

/-- What the child at an index holds, as a given type. -/
def payload (contents : Contents) (type : ValueType) (index : Nat) : Except Error Payload := do
  (← contents.child index).payloadAs type

/-- What the child at an index holds, or a default when there is no such child. -/
def payloadOr (contents : Contents) (type : ValueType) (index : Nat) (default : Payload) :
    Except Error Payload :=
  match contents.children[index]? with
  | some node => node.payloadAs type
  | none => .ok default

/-- The child at an index, which must be of a given kind. -/
def nodeOf (contents : Contents) (kind : NodeKind) (index : Nat) : Except Error Node := do
  (← contents.child index).asKind kind

/-- The first thing of a given type that a child holds and that satisfies `p`. -/
def findPayload (contents : Contents) (type : ValueType) (p : Payload → Bool) : Option Payload :=
  (contents.children.filterMap (Node.payloadOf? type)).find? p

end Contents

/-! ## Occurrences

What the node of one occurrence of a term is made from: the term, where it stands, the text of a
token, and the nodes of the parts below it. -/

/-- A part of an occurrence; parts of some terms have no node. -/
structure Part where
  term : Term
  node : Option Node

/-- One occurrence of a term in a text. -/
structure Occurrence where
  term : Term
  location : Location
  /-- The text that a terminal matched. -/
  token : Option String
  parts : List Part

namespace Occurrence

/-- The nodes of the parts that have one. -/
def nodes (occurrence : Occurrence) : List Node :=
  occurrence.parts.filterMap (·.node)

/-- The occurrence as a sequence of its nodes. -/
def toSequence (occurrence : Occurrence) : Node :=
  Node.ofSequence occurrence.location occurrence.nodes

/-- The occurrence as an optional part: absent without parts, the node of a single part, and a
sequence of the nodes of several. -/
def toOptional (occurrence : Occurrence) : Node :=
  Node.ofOptional occurrence.location <|
    match occurrence.parts with
    | [] => none
    | [part] => part.node
    | _ => some occurrence.toSequence

/-- The occurrence as a brace. It is bracketed when it has three parts of which the first opens
and the last closes a brace; otherwise all its nodes stand alone. -/
def toBrace (occurrence : Occurrence) : Node :=
  match occurrence.parts with
  | [opening, middle, closing] =>
    if opening.term.flags.has .openBrace && closing.term.flags.has .closeBrace then
      let nested := middle.node.getD (Node.ofSequence occurrence.location [])
      .brace occurrence.location opening.term.text? closing.term.text? nested.soleOrSelf
    else .brace occurrence.location none none occurrence.toSequence.soleOrSelf
  | _ => .brace occurrence.location none none occurrence.toSequence.soleOrSelf

/-- The occurrence as a list of its nodes of one type. -/
def toList (occurrence : Occurrence) (element : ValueType) : Node :=
  Node.ofList occurrence.location element occurrence.nodes

/-- A part as data: name and flags of its term, and a brief description of its node. -/
def describePart (part : Part) : Data :=
  .list [.text part.term.name, .text part.term.flags.display,
    (part.node.map Node.brief).getD .null]

/-- The occurrence as data. -/
def describe (occurrence : Occurrence) : Data :=
  .ofFields [
    ("term", .text occurrence.term.name),
    ("token", .ofText? occurrence.token),
    ("at", occurrence.location.toData),
    ("c", .list (occurrence.parts.map describePart))]

end Occurrence

/-! ## Makers

How the node of an occurrence is made. The makers are a closed family, so every node comes from one
of the constructors of nodes; what remains open is which symbol, literal or value is computed. -/

/-- A way to make the node of an occurrence. -/
inductive Maker
  | sequence
  | optional
  | brace
  | list (element : ValueType)
  /-- The first of the nodes below. -/
  | first
  /-- A key term with the value and precedence it was registered with. -/
  | key (value : Value) (precedence : Option Precedence)
  /-- A constant with the value of the key term that was matched. -/
  | constant (type : ValueType)
  | identifier (symbol : Occurrence → Except Error String)
  /-- A literal, its value and the text it was read from. -/
  | literal (read : Occurrence → Except Error (Value × String))
  | declared (owner : DeclaredNode) (value : Contents → Except Error Value)

namespace Maker

/-- Makes the node of an occurrence. -/
def make (maker : Maker) (occurrence : Occurrence) : Except Error Node :=
  match maker with
  | sequence => .ok occurrence.toSequence
  | optional => .ok occurrence.toOptional
  | brace => .ok occurrence.toBrace
  | list element => .ok (occurrence.toList element)
  | first =>
    match occurrence.nodes with
    | node :: _ => .ok node
    | [] => .error (.node occurrence.location "no child")
  | key value precedence =>
    .ok (.key occurrence.location value occurrence.term.name (occurrence.term.text?.getD "")
      occurrence.term.flags precedence)
  | constant type =>
    match occurrence.nodes with
    | node :: _ => (node.valueAs type).map (.constant occurrence.location)
    | [] => .error (.invalidState
        s!"constant `{type.name}` at {occurrence.location.display} matched no key term")
  | identifier symbol => (symbol occurrence).map (.identifier occurrence.location)
  | literal read => (read occurrence).map fun (value, raw) => .literal occurrence.location value raw
  | declared owner value =>
    (value ⟨occurrence.location, occurrence.nodes⟩).map
      (.declared occurrence.location owner · occurrence.nodes)

/-! ### Ready-made makers -/

/-- An identifier with the same symbol everywhere. -/
def word (symbol : String) : Maker :=
  identifier fun _ => .ok symbol

/-- Refuses every occurrence. -/
def refuse (message : String) : Maker :=
  literal fun occurrence => .error (.node occurrence.location message)

/-- A literal whose value describes the occurrence. -/
def report : Maker :=
  literal fun occurrence => .ok (.data occurrence.describe, "position")

/-- The number in the first node times `factor`, as a literal of the number. -/
def scaled (factor : Int64) : Maker :=
  literal fun occurrence =>
    match occurrence.nodes with
    | [] => .error (.node occurrence.location "no count")
    | node :: _ => do
      match ← node.valueAs .int64 with
      | .int64 count =>
        match Number.toInt64? (count.toInt * factor.toInt) with
        | some product => pure (.int64 product, s!"{count.toInt}x")
        | none => throw (.node occurrence.location "scale overflows")
      | _ => throw (.node occurrence.location "no count")

end Maker

end TypedGrammar
