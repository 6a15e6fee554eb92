import Mathlib.Data.List.Basic
import TypedGrammar.Node.OperatorChain

/-!
# The grouping of operator chains

How the operators of a chain are to be grouped, said of the chain as a whole: every operator to the
left of another one inside its left-hand side binds before it, and it does not bind before any
operator inside its right-hand side.  A chain that is grouped so is folded as the grouping says,
although the fold sees one operator at a time.
-/

namespace TypedGrammar

namespace OperatorChain

variable {m : Type → Type} [Monad m] {α : Type} {type : ValueType} {operand : Node → m α}
  {apply : α → Value → α → m α}

/-- **Groupings.**  The nodes of a chain, the precedences of its operators from left to right, and
what a grouping of them computes: its left-hand side, its right-hand side, and then its operator. -/
inductive Grouping (type : ValueType) (operand : Node → m α) (apply : α → Value → α → m α) :
    List Node → List Precedence → m α → Prop
  | operand {node} : Grouping type operand apply [node] [] (operand node)
  /-- The operator is applied last: it waits for the operators on its left, and those on its right
  do not wait for it. -/
  | apply {left right node op ps qs x y} :
      Grouping type operand apply left ps x → operator type node = .ok op →
      Grouping type operand apply right qs y →
      (∀ p ∈ ps, p.bindsBefore op.precedence = true) →
      (∀ q ∈ qs, op.precedence.bindsBefore q = false) →
      Grouping type operand apply (left ++ node :: right) (ps ++ op.precedence :: qs) do
        let a ← x
        let b ← y
        apply a op.value b

/-- The nodes of a chain, the precedences of its operators from left to right, and the value of a
grouping of them. -/
inductive Grouped (type : ValueType) (operand : Node → m α) (apply : α → Value → α → m α) :
    List Node → List Precedence → α → Prop
  | operand {node a} : operand node = pure a → Grouped type operand apply [node] [] a
  /-- The operator is applied last: it waits for the operators on its left, and those on its right
  do not wait for it. -/
  | apply {left right node op ps qs a b c} :
      Grouped type operand apply left ps a → operator type node = .ok op →
      Grouped type operand apply right qs b →
      (∀ p ∈ ps, p.bindsBefore op.precedence = true) →
      (∀ q ∈ qs, op.precedence.bindsBefore q = false) → apply a op.value b = pure c →
      Grouped type operand apply (left ++ node :: right) (ps ++ op.precedence :: qs) c

variable {nodes rest : List Node} {ps : List Precedence} {a b : α} {op : Operator} {x : m α}
  {operands : List α} {pending : List Operator}

/-- There is one operand more than there are operators. -/
theorem Grouping.length_eq (h : Grouping type operand apply nodes ps x) :
    nodes.length = 2 * ps.length + 1 := by
  induction h with
  | operand => rfl
  | apply _ _ _ _ _ ihLeft ihRight =>
    rw [List.length_append, List.length_append, List.length_cons, List.length_cons, ihLeft, ihRight]
    omega

/-- Behind some operators the chain ends, or an operator follows before which all of them bind. -/
def Awaits (type : ValueType) (ps : List Precedence) (rest : List Node) : Prop :=
  ∀ node ∈ rest.head?, ∃ op, operator type node = .ok op ∧
    ∀ p ∈ ps, p.bindsBefore op.precedence = true

theorem Awaits.mono {qs : List Precedence} (h : Awaits type ps rest) (hsub : qs ⊆ ps) :
    Awaits type qs rest := by
  intro next hnext
  obtain ⟨incoming, hincoming, hbinds⟩ := h next hnext
  exact ⟨incoming, hincoming, fun q hq => hbinds q (hsub hq)⟩

variable [LawfulMonad m]

/-- A grouping with a value computes it. -/
theorem Grouped.grouping (h : Grouped type operand apply nodes ps a) :
    Grouping type operand apply nodes ps (pure a) := by
  induction h with
  | operand hread => exact hread ▸ .operand
  | apply _ hop _ hbefore hbehind happly ihLeft ihRight =>
    have hwhole := Grouping.apply ihLeft hop ihRight hbefore hbehind
    rwa [pure_bind, pure_bind, happly] at hwhole

variable [MonadExceptOf Error m]

/-- Where an operator that waits binds before what follows, it is applied. -/
theorem scan_waiting (hrest : Awaits type [op.precedence] rest) :
    scan type operand apply false (b :: a :: operands) (op :: pending) rest = (do
      let c ← apply a op.value b
      scan type operand apply false (c :: operands) pending rest) := by
  cases rest with
  | nil =>
    have hstep : applyPending apply none (b :: a :: operands) (op :: pending) = (do
        let c ← apply a op.value b
        applyPending apply none (c :: operands) pending) := by
      rw [applyPending, if_pos (by rfl)]
    simp only [scan, hstep, bind_assoc]
  | cons node rest =>
    obtain ⟨incoming, hincoming, hbinds⟩ := hrest node rfl
    have hstep :
        applyPending apply (some incoming.precedence) (b :: a :: operands) (op :: pending) = (do
          let c ← apply a op.value b
          applyPending apply (some incoming.precedence) (c :: operands) pending) := by
      have hbefore := hbinds op.precedence (List.mem_singleton_self _)
      rw [applyPending, if_pos (by rwa [Option.all_some])]
    have hread : (MonadExcept.ofExcept (operator type node) : m Operator) = pure incoming := by
      rw [hincoming]
      rfl
    simp only [scan, hread, pure_bind, hstep, bind_assoc]

/-- An operator before which the last one that waits does not bind is put behind it. -/
theorem scan_incoming {node : Node} (hop : operator type node = .ok op)
    (hlast : ∀ last ∈ pending.head?, last.precedence.bindsBefore op.precedence = false) :
    scan type operand apply false operands pending (node :: rest) =
      scan type operand apply true operands (op :: pending) rest := by
  have hstep : applyPending apply (some op.precedence) operands pending =
      (pure (operands, pending) : m _) := by
    cases pending with
    | nil => rw [applyPending]
    | cons last others =>
      have hwaits : ¬ (some op.precedence).all last.precedence.bindsBefore = true := by
        rw [Option.all_some, hlast last rfl]
        exact Bool.false_ne_true
      unfold applyPending
      rw [if_neg hwaits]
  have hread : (MonadExcept.ofExcept (operator type node) : m Operator) = pure op := by
    rw [hop]
    rfl
  rw [scan, hread, pure_bind, hstep, pure_bind]

/-- A grouped part of a chain is read like a single operand that is computed as the grouping
says. -/
theorem Grouping.scan_eq (h : Grouping type operand apply nodes ps x)
    (hpending : ∀ last ∈ pending.head?, ∀ p ∈ ps, last.precedence.bindsBefore p = false)
    (hrest : Awaits type ps rest) :
    scan type operand apply true operands pending (nodes ++ rest) = (do
      let a ← x
      scan type operand apply false (a :: operands) pending rest) := by
  -- The operator of the part is pushed between its two sides and is the first to be applied behind
  -- them.
  induction h generalizing operands pending rest with
  | operand => rw [List.singleton_append, scan]
  | @apply left right node op ps qs x y _ hop _ hbefore hbehind ihLeft ihRight =>
    have hleft : Awaits type ps (node :: (right ++ rest)) := by
      intro next hnext
      obtain rfl := Option.some.inj hnext
      exact ⟨op, hop, hbefore⟩
    have hright : Awaits type qs rest :=
      hrest.mono fun q hq => List.mem_append_right _ (List.mem_cons_of_mem _ hq)
    have hself : Awaits type [op.precedence] rest :=
      hrest.mono fun q hq => List.mem_append_right _
        (List.mem_singleton.mp hq ▸ List.mem_cons_self)
    have hincoming : ∀ last ∈ pending.head?,
        last.precedence.bindsBefore op.precedence = false := fun last hlast =>
      hpending last hlast _ (List.mem_append_right _ List.mem_cons_self)
    have hbehind' : ∀ last ∈ (op :: pending).head?, ∀ q ∈ qs,
        last.precedence.bindsBefore q = false := by
      intro last hlast q hq
      obtain rfl := Option.some.inj hlast
      exact hbehind q hq
    rw [List.append_assoc, List.cons_append,
      ihLeft (fun last hlast p hp => hpending last hlast p (List.mem_append_left _ hp)) hleft]
    simp only [scan_incoming hop hincoming, ihRight hbehind' hright, scan_waiting hself, bind_assoc]

/-- **Folding of groupings.**  A grouped chain is folded as its grouping says. -/
theorem Grouping.fold_eq (h : Grouping type operand apply nodes ps x) :
    fold type operand apply nodes = x := by
  have hodd : nodes.length % 2 ≠ 0 := by
    have := h.length_eq
    omega
  have hend : Awaits type ps [] := nofun
  have hscan : scan type operand apply true [] [] (nodes ++ []) = (do
      let a ← x
      scan type operand apply false [a] [] []) := h.scan_eq nofun hend
  have hresult : ∀ a : α, scan type operand apply false [a] [] [] = pure a := by
    intro a
    rw [scan, applyPending, pure_bind]
  rw [List.append_nil] at hscan
  rw [fold, if_neg hodd, hscan]
  simp only [hresult, bind_pure]

/-- A chain with a grouping that has a value is folded to this value. -/
theorem Grouped.fold_eq (h : Grouped type operand apply nodes ps a) :
    fold type operand apply nodes = pure a :=
  h.grouping.fold_eq

end OperatorChain

end TypedGrammar
