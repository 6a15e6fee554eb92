import TypedGrammar.Node.Basic

/-!
# Operator chains

A chain `operand (operator operand)*` is folded by the precedence of its operators. Operands and
operators that wait for their right-hand side are kept on two stacks.
-/

namespace TypedGrammar

/-- Whether an operator on the stack is applied before an incoming one is pushed: it binds tighter,
or as tight and the incoming one does not group to the right. -/
def Precedence.bindsBefore (top incoming : Precedence) : Bool :=
  incoming.level < top.level || (top.level = incoming.level && incoming.associativity != .right)

/-- The precedence of an operator that declares none. -/
def Precedence.undeclared : Precedence := ⟨0, .left⟩

namespace OperatorChain

/-- An operator of a chain: its value and how it binds. -/
structure Operator where
  value : Value
  precedence : Precedence

/-- The operator of a node, which must be a key term with a value of the given type. -/
def operator (type : ValueType) (node : Node) : Except Error Operator :=
  match node with
  | .key _ value _ _ _ precedence =>
    if value.type = type then .ok ⟨value, precedence.getD .undeclared⟩
    else .error (.typeMismatch (NodeKind.key type).name node.payloadType.name)
  | _ => .error (.typeMismatch (NodeKind.key type).name node.payloadType.name)

variable {m : Type → Type} [Monad m] [MonadExceptOf Error m] {α : Type}

/-- Applies the topmost operators while they bind before an incoming one; without an incoming one
all of them are applied. -/
def applyPending (apply : α → Value → α → m α) (incoming : Option Precedence) :
    List α → List Operator → m (List α × List Operator)
  | operands, [] => pure (operands, [])
  | operands, top :: pending =>
    if incoming.all top.precedence.bindsBefore then
      match operands with
      | rhs :: lhs :: rest => do
        let result ← apply lhs top.value rhs
        applyPending apply incoming (result :: rest) pending
      | _ => throw (.invalidState "operator chain is missing an operand")
    else pure (operands, top :: pending)

/-- Reads the nodes from left to right, operands and operators in turn. -/
def scan (type : ValueType) (operand : Node → m α) (apply : α → Value → α → m α) :
    Bool → List α → List Operator → List Node → m α
  | _, operands, pending, [] => do
    match ← applyPending apply none operands pending with
    | ([result], _) => pure result
    | _ => throw (.invalidState "operator chain left unfolded operands")
  | true, operands, pending, node :: rest => do
    let value ← operand node
    scan type operand apply false (value :: operands) pending rest
  | false, operands, pending, node :: rest => do
    let incoming ← MonadExcept.ofExcept (operator type node)
    let (operands, pending) ← applyPending apply (some incoming.precedence) operands pending
    scan type operand apply true operands (incoming :: pending) rest

/-- Folds a chain: `operand` reads the nodes at even places, operators are the key terms of the
given type at odd places, and `apply` combines two operands by the value of an operator. -/
def fold (type : ValueType) (operand : Node → m α) (apply : α → Value → α → m α)
    (nodes : List Node) : m α :=
  if nodes.length % 2 = 0 then
    throw (.invalidState
      s!"operator chain needs an odd number of nodes, got {nodes.length}")
  else scan type operand apply true [] [] nodes

end OperatorChain

end TypedGrammar
