import TypedGrammar.Node.Maker
import TypedGrammar.Node.Basic
import TypedGrammar.Node.OperatorChain

/-!
# Recipes

Ready-made ways to compute the value of an occurrence from its children. Their results are data, in
which values are tagged and nodes are described briefly.
-/

namespace TypedGrammar

namespace Node

/-- What is inside an optional that is present. -/
def inner? : Node → Option Node
  | present _ inner => some inner
  | _ => none

/-- What an optional holds, as a given type; an absent one is an error. -/
def optionalPayload (node : Node) (type : ValueType) : Except Error Payload :=
  match node.inner? with
  | some inner => inner.payloadAs type
  | none => .error (.invalidState s!"optional at {node.location.display} has no value")

/-- A brief description of what is inside an optional, or a default if it is absent. -/
def briefInnerOr (node : Node) (default : Data) : Data :=
  match node.inner? with
  | some inner => inner.brief
  | none => default

end Node

/-- A way to compute the value of an occurrence. -/
inductive Recipe
  /-- The number of children. -/
  | count
  | isEmpty
  /-- The display of the location. -/
  | location
  | value (type : ValueType) (index : Nat)
  /-- The value of a child, or a default if there is no such child. -/
  | valueOr (type : ValueType) (index : Nat) (default : Value)
  | child (index : Nat)
  | children
  | nodeOf (kind : NodeKind) (index : Nat)
  /-- The values of a child that is a list. -/
  | items (element : ValueType) (index : Nat)
  /-- The value of a child that is a present optional. -/
  | optional (type : ValueType) (index : Nat)
  /-- The node inside a child that is an optional, or a default if it is absent. -/
  | optionalOr (index : Nat) (default : Data)
  /-- The first value of a type, or the first that equals a wanted one. -/
  | find (type : ValueType) (wanted : Option Data)
  /-- The children as an operator chain, written out with parentheses. -/
  | fold (operand operator : ValueType)
  /-- The children as an operator chain over numbers, calculated. -/
  | calculate
  | constant (d : Data)
  | refuse (message : String)

namespace Recipe

/-- Writes an application in parentheses; the operator `!` cannot be applied. -/
def writeApplication (a : String) (operator : Value) (b : String) : Except Error String :=
  if operator.plain = "!" then .error (.invalidState s!"cannot apply {a} ! {b}")
  else .ok s!"({a}{operator.plain}{b})"

/-- The number of a node. -/
def readNumber (node : Node) : Except Error Int64 := do
  match ← node.valueAs .int64 with
  | .int64 n => return n
  | _ => throw (.typeMismatch ValueType.int64.name node.payloadType.name)

/-- The result of an operation on numbers that may not fit. -/
def fitting (contents : Contents) (result : Option Int64) : Except Error Int64 :=
  match result with
  | some n => .ok n
  | none => .error (contents.refused "overflow")

/-- Calculates with numbers of 64 bits; division rounds toward zero. -/
def calculateWith (contents : Contents) (a : Int64) (operator : Value) (b : Int64) :
    Except Error Int64 :=
  let sign := operator.plain
  if sign = "+" then fitting contents (Number.toInt64? (a.toInt + b.toInt))
  else if sign = "-" then fitting contents (Number.toInt64? (a.toInt - b.toInt))
  else if sign = "*" then fitting contents (Number.toInt64? (a.toInt * b.toInt))
  else if sign = "/" then
    if b.toInt = 0 then .error (contents.refused "division by zero")
    else fitting contents (Number.toInt64? (a.toInt.tdiv b.toInt))
  else if sign = "^" then fitting contents (Number.power? a b)
  else .error (contents.refused s!"unknown operator {sign}")

/-- The plain text of the value of a node. -/
def readPlain (type : ValueType) (node : Node) : Except Error String := do
  return (← node.valueAs type).plain

/-- Whether something held by a node equals a wanted value, given as data; data that are not of the
type of what is held equal nothing. -/
def holds (wanted : Option Data) (payload : Payload) : Bool :=
  match wanted, payload with
  | none, _ => true
  | some d, .value v => (v.type.read d).any v.equal
  | some _, .nodes _ => false

/-- The values of a list, as data. -/
def listItems (node : Node) : Data :=
  match node with
  | .list _ element nodes => Node.elementValues element nodes
  | _ => .list []

/-- Computes the value of an occurrence. -/
def run (recipe : Recipe) (contents : Contents) : Except Error Data :=
  match recipe with
  | count => return (Value.int64 (Int64.ofNat contents.children.length)).toData
  | isEmpty => return (Value.bool contents.children.isEmpty).toData
  | location => return (Value.text contents.location.display).toData
  | value type index => do return (← contents.payload type index).toData
  | valueOr type index default => do
    return (← contents.payloadOr type index (.value default)).toData
  | child index => do return (← contents.child index).brief
  | children => return .list (contents.children.map Node.brief)
  | nodeOf kind index => do return (← contents.nodeOf kind index).brief
  | items element index => do return listItems (← contents.nodeOf (.list element) index)
  | optional type index => do
    return (← (← contents.nodeOf .optional index).optionalPayload type).toData
  | optionalOr index default => do
    return (← contents.nodeOf .optional index).briefInnerOr default
  | find type wanted =>
    match contents.findPayload type (holds wanted) with
    | some payload => return payload.toData
    | none => return (Value.text "none").toData
  | fold operand operator => do
    let text ← OperatorChain.fold operator (readPlain operand) writeApplication contents.children
    return (Value.text text).toData
  | calculate => do
    let n ← OperatorChain.fold .char readNumber (calculateWith contents) contents.children
    return (Value.int64 n).toData
  | constant d => return d
  | refuse message => throw (contents.refused message)

end Recipe

end TypedGrammar
