import Mathlib.Data.List.Basic
import TypedGrammar.Node.OperatorChain

/-!
# Folding operator chains

A chain in which operands and operators take turns is folded without an error of its own: while it
is read, there is always one operand more than there are operators waiting.  So only the functions
that read operands and apply operators can fail.  These may keep a state.
-/

namespace TypedGrammar

namespace OperatorChain

/-- **Chains.**  Operands and operators in turn, beginning and ending with an operand; what the
operators are is said of each together with a text of its own. -/
inductive Chain (isOperand : Node → Prop) (isOperator : String → Node → Prop) :
    List String → List Node → Prop
  | single {node} : isOperand node → Chain isOperand isOperator [] [node]
  | cons {node text operator texts rest} :
      isOperand node → isOperator text operator → Chain isOperand isOperator texts rest →
      Chain isOperand isOperator (text :: texts) (node :: operator :: rest)

variable {σ α β : Type} {isOperand : Node → Prop} {isOperator : String → Node → Prop}
  {texts : List String} {nodes : List Node}

/-- There is one operand more than there are operators. -/
theorem Chain.length_eq (h : Chain isOperand isOperator texts nodes) :
    nodes.length = 2 * texts.length + 1 := by
  induction h with
  | single _ => rfl
  | cons _ _ _ ih =>
    rw [List.length_cons, List.length_cons, List.length_cons, ih]
    omega

/-! ## Steps with a state -/

/-- From every state: if the step succeeds, its value has a property; if it fails, its error has
another one. -/
def Ensures (P : α → Prop) (F : Error → Prop) (step : ExceptT Error (StateM σ) α) : Prop :=
  ∀ state,
    match (step.run.run state).1 with
    | .ok a => P a
    | .error e => F e

variable {P : α → Prop} {Q : β → Prop} {F : Error → Prop} {step : ExceptT Error (StateM σ) α}

theorem ensures_pure {a : α} (h : P a) : Ensures P F (pure a : ExceptT Error (StateM σ) α) :=
  fun _ => h

/-- After a step, the next one begins with its value in the state that it has left. -/
theorem run_bind (step : ExceptT Error (StateM σ) α) (f : α → ExceptT Error (StateM σ) β)
    (state : σ) : (step >>= f).run.run state =
      (StateT.run (ExceptT.bindCont f (step.run.run state).1) (step.run.run state).2 :
        Except Error β × σ) :=
  rfl

theorem ensures_bind {f : α → ExceptT Error (StateM σ) β} (hstep : Ensures P F step)
    (hf : ∀ a, P a → Ensures Q F (f a)) : Ensures Q F (step >>= f) := by
  intro state
  have hfirst := hstep state
  rw [run_bind]
  rcases hrun : step.run.run state with ⟨e | a, after⟩
  · rw [hrun] at hfirst
    exact hfirst
  · rw [hrun] at hfirst
    exact hf a hfirst after

/-! ## Folding -/

section Fold

variable {type : ValueType} {operand : Node → ExceptT Error (StateM σ) α}
  {apply : α → Value → α → ExceptT Error (StateM σ) α} {operands : List α}
  {pending : List Operator}
  (happly : ∀ lhs value rhs, Ensures (fun _ => True) F (apply lhs value rhs))
include happly

/-- Where there is one operand more than there are operators waiting, this stays so while operators
are applied; without an incoming operator all of them are. -/
theorem ensures_applyPending (incoming : Option Precedence)
    (hlength : operands.length = pending.length + 1) :
    Ensures (fun left : List α × List Operator =>
        left.1.length = left.2.length + 1 ∧ (incoming = none → left.2 = []))
      F (applyPending apply incoming operands pending) := by
  induction pending generalizing operands with
  | nil =>
    unfold applyPending
    exact ensures_pure ⟨hlength, fun _ => rfl⟩
  | cons top rest ih =>
    unfold applyPending
    split
    · match operands, hlength with
      | rhs :: lhs :: others, hlength =>
        refine ensures_bind (happly lhs top.value rhs) fun result _ => ih ?_
        simp only [List.length_cons] at hlength ⊢
        omega
    · next hwaits =>
      refine ensures_pure ⟨hlength, ?_⟩
      rintro rfl
      exact absurd rfl hwaits

variable (hoperand : ∀ node ∈ nodes, Ensures (fun _ => True) F (operand node))
  (hoperator : ∀ text node, isOperator text node → ∃ op, operator type node = .ok op)
include hoperand hoperator

/-- A chain is read without an error of its own. -/
theorem ensures_scan (h : Chain isOperand isOperator texts nodes)
    (hlength : operands.length = pending.length) :
    Ensures (fun _ => True) F (scan type operand apply true operands pending nodes) := by
  -- Where an operand is expected, there are as many operands as operators.
  induction h generalizing operands pending with
  | @single node _ =>
    unfold scan
    refine ensures_bind (hoperand node List.mem_cons_self) fun value _ => ?_
    unfold scan
    have hvalue : (value :: operands).length = pending.length + 1 := by
      rw [List.length_cons, hlength]
    refine ensures_bind (ensures_applyPending happly none hvalue) fun left hleft => ?_
    obtain ⟨remaining, waiting⟩ := left
    obtain ⟨hone, hnone⟩ := hleft
    obtain rfl : waiting = [] := hnone rfl
    obtain ⟨result, rfl⟩ := List.length_eq_one_iff.mp hone
    exact ensures_pure trivial
  | @cons node text op texts rest _ hop _ ih =>
    unfold scan
    refine ensures_bind (hoperand node List.mem_cons_self) fun value _ => ?_
    unfold scan
    obtain ⟨incoming, hincoming⟩ := hoperator text op hop
    rw [hincoming]
    refine ensures_bind (ensures_pure (P := (· = incoming)) rfl) fun incoming _ => ?_
    have hvalue : (value :: operands).length = pending.length + 1 := by
      rw [List.length_cons, hlength]
    refine ensures_bind (ensures_applyPending happly _ hvalue) fun left hleft => ?_
    refine ih (fun node hnode => hoperand node ?_) ?_
    · exact List.mem_cons_of_mem _ (List.mem_cons_of_mem _ hnode)
    · rw [List.length_cons]
      exact hleft.1

end Fold

/-- An error came from reading one of the nodes or from applying an operator. -/
def FromCallback (operand : Node → ExceptT Error (StateM σ) α)
    (apply : α → Value → α → ExceptT Error (StateM σ) α) (nodes : List Node) (e : Error) : Prop :=
  (∃ node ∈ nodes, ∃ state, ((operand node).run.run state).1 = .error e) ∨
    ∃ lhs value rhs state, ((apply lhs value rhs).run.run state).1 = .error e

/-- **Folding of chains.**  A chain is folded, unless reading an operand or applying an operator
fails; then it fails with the same error. -/
theorem Chain.fromCallback (h : Chain isOperand isOperator texts nodes) {type : ValueType}
    (hoperator : ∀ text node, isOperator text node → ∃ op, operator type node = .ok op)
    {operand : Node → ExceptT Error (StateM σ) α}
    {apply : α → Value → α → ExceptT Error (StateM σ) α} {state : σ} {e : Error}
    (hfails : ((fold type operand apply nodes).run.run state).1 = .error e) :
    FromCallback operand apply nodes e := by
  have happly : ∀ lhs value rhs,
      Ensures (fun _ => True) (FromCallback operand apply nodes) (apply lhs value rhs) := by
    intro lhs value rhs state
    split
    · trivial
    · next e he => exact Or.inr ⟨lhs, value, rhs, state, he⟩
  have hoperand : ∀ node ∈ nodes,
      Ensures (fun _ => True) (FromCallback operand apply nodes) (operand node) := by
    intro node hnode state
    split
    · trivial
    · next e he => exact Or.inl ⟨node, hnode, state, he⟩
  have hodd : nodes.length % 2 ≠ 0 := by
    have := h.length_eq
    omega
  have hscan : Ensures (fun _ => True) (FromCallback operand apply nodes)
      (scan type operand apply true [] [] nodes) :=
    ensures_scan happly hoperand hoperator h rfl
  have hresult := hscan state
  unfold fold at hfails
  rw [if_neg hodd] at hfails
  rw [hfails] at hresult
  exact hresult

end OperatorChain

end TypedGrammar
