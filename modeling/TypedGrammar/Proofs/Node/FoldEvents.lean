import Mathlib.Data.List.Basic
import TypedGrammar.Node.Recipe
import TypedGrammar.Proofs.Node.OperatorChain
import TypedGrammar.Proofs.Node.Readings

/-!
# What happens while a chain is folded

The fold reads operands, checks operators and applies them.  These events take turns as the
precedences have it, and functions that keep a state tell every order of them from every other one.
Each event has the place of the node that it is about; from the places it is read off that no event
happens twice, that nothing happens behind a failure, and that the values on the two stacks always
are those of neighbouring parts of the chain.
-/

namespace TypedGrammar

namespace OperatorChain

variable {σ α β γ : Type}

/-! ## Events -/

/-- An event while a chain is folded, with its place in the chain and its answer. -/
inductive Event (α : Type)
  /-- An operand is read. -/
  | read (place : ℕ) (answer : Except Error α)
  /-- It is checked that there is an operator. -/
  | check (place : ℕ) (answer : Except Error Operator)
  /-- An operator is applied. -/
  | apply (place : ℕ) (lhs rhs : α) (answer : Except Error α)

namespace Event

/-- The error that an event ended with. -/
def failure? : Event α → Option Error
  | .read _ (.error e) => some e
  | .check _ (.error e) => some e
  | .apply _ _ _ (.error e) => some e
  | _ => none

/-- The place that is scanned: it is read or checked. -/
def scanned? : Event α → Option ℕ
  | .read place _ => some place
  | .check place _ => some place
  | .apply .. => none

/-- The place of the operator that is applied. -/
def applied? : Event α → Option ℕ
  | .apply place .. => some place
  | _ => none

/-- A function of the caller is called. -/
def IsCall : Event α → Prop
  | .check .. => False
  | _ => True

end Event

/-- What some events compute of the nodes from a place up to another one.  Every node between them
has its part in it, and it has it once: an operand as it was read, an operator as it was applied to
what its two sides compute. -/
inductive Computes (events : List (Event α)) : ℕ → ℕ → α → Prop
  | operand {place a} : .read place (.ok a) ∈ events → Computes events place (place + 1) a
  | apply {i place j a b c} : Computes events i place a → Computes events (place + 1) j b →
      .apply place a b (.ok c) ∈ events → Computes events i j c

/-- **Histories.**  Some events lead from one state to another one: operands at even places are
read, operators at odd places are checked, and operators that were found are applied to what their
two sides compute, each by the function for it in the state that the events before have left. -/
inductive Happens (type : ValueType) (operand : Node → ExceptT Error (StateM σ) α)
    (apply : α → Value → α → ExceptT Error (StateM σ) α) (nodes : List Node) (start : σ) :
    List (Event α) → σ → Prop
  | start : Happens type operand apply nodes start [] start
  | read {events state place node answer after} :
      Happens type operand apply nodes start events state → place % 2 = 0 →
      nodes[place]? = some node → (operand node).run.run state = (answer, after) →
      Happens type operand apply nodes start (events ++ [.read place answer]) after
  | check {events state place node} :
      Happens type operand apply nodes start events state → place % 2 = 1 →
      nodes[place]? = some node →
      Happens type operand apply nodes start (events ++ [.check place (operator type node)]) state
  | apply {events state i place j op lhs rhs answer after} :
      Happens type operand apply nodes start events state → .check place (.ok op) ∈ events →
      Computes events i place lhs → Computes events (place + 1) j rhs →
      (apply lhs op.value rhs).run.run state = (answer, after) →
      Happens type operand apply nodes start (events ++ [.apply place lhs rhs answer]) after

variable {events later : List (Event α)} {event : Event α} {i j k place : ℕ} {a b c : α}
  {op : Operator} {e : Error}

/-- What is computed by some events is computed by more of them. -/
theorem Computes.mono (h : Computes events i j a) (hsub : events ⊆ later) :
    Computes later i j a := by
  induction h with
  | operand hread => exact .operand (hsub hread)
  | apply _ _ happly ihLeft ihRight => exact .apply ihLeft ihRight (hsub happly)

/-! ## Order -/

/-- So far nothing has failed, the nodes before a place have been scanned from left to right, and of
the operators among them those at the waiting places have not been applied. -/
structure Orderly (events : List (Event α)) (place : ℕ) (waiting : List ℕ) : Prop where
  scanned : events.filterMap Event.scanned? = List.range place
  applied : (events.filterMap Event.applied? ++ waiting).Perm
    ((List.range place).filter (· % 2 = 1))
  succeeds : ∀ event ∈ events, event.failure? = none

namespace Orderly

variable {waiting : List ℕ}

/-- Before any event nothing is scanned, and no operator waits. -/
theorem start : Orderly ([] : List (Event α)) 0 [] :=
  ⟨rfl, List.Perm.refl _, List.forall_mem_nil _⟩

/-- Reading the next operand is in order. -/
theorem read (h : Orderly events place waiting) (heven : place % 2 = 0) (a : α) :
    Orderly (events ++ [.read place (.ok a)]) (place + 1) waiting where
  scanned := by
    rw [List.filterMap_append, h.scanned, List.range_succ]
    rfl
  applied := by
    have hno : (List.range (place + 1)).filter (· % 2 = 1) =
        (List.range place).filter (· % 2 = 1) := by
      rw [List.range_succ, List.filter_append]
      simp [heven]
    rw [List.filterMap_append, hno]
    show ((_ ++ []) ++ waiting).Perm _
    rw [List.append_nil]
    exact h.applied
  succeeds := by
    rw [List.forall_mem_append, List.forall_mem_singleton]
    exact ⟨h.succeeds, rfl⟩

/-- Once the next operator is checked, it waits too. -/
theorem check (h : Orderly events place waiting) (hodd : place % 2 = 1) (op : Operator) :
    Orderly (events ++ [.check place (.ok op)]) (place + 1) (waiting ++ [place]) where
  scanned := by
    rw [List.filterMap_append, h.scanned, List.range_succ]
    rfl
  applied := by
    have hone : (List.range (place + 1)).filter (· % 2 = 1) =
        (List.range place).filter (· % 2 = 1) ++ [place] := by
      rw [List.range_succ, List.filter_append]
      simp [hodd]
    rw [List.filterMap_append, hone, ← List.append_assoc]
    show (((_ ++ []) ++ waiting) ++ [place]).Perm _
    rw [List.append_nil]
    exact h.applied.append_right [place]
  succeeds := by
    rw [List.forall_mem_append, List.forall_mem_singleton]
    exact ⟨h.succeeds, rfl⟩

/-- Once a waiting operator is applied, it does not wait any longer. -/
theorem apply (h : Orderly events place (k :: waiting)) (a b c : α) :
    Orderly (events ++ [.apply k a b (.ok c)]) place waiting where
  scanned := by
    rw [List.filterMap_append, h.scanned]
    simp [Event.scanned?]
  applied := by
    rw [List.filterMap_append, List.append_assoc]
    exact h.applied
  succeeds := by
    rw [List.forall_mem_append, List.forall_mem_singleton]
    exact ⟨h.succeeds, rfl⟩

/-- The order in which operators wait does not matter. -/
theorem perm {others : List ℕ} (h : Orderly events place waiting) (hperm : waiting.Perm others) :
    Orderly events place others :=
  ⟨h.scanned, (hperm.symm.append_left _).trans h.applied, h.succeeds⟩

end Orderly

/-- Nothing failed but the last event, which was the next one in order. -/
def Failed (e : Error) (events : List (Event α)) : Prop :=
  ∃ before event place waiting, events = before ++ [event] ∧ event.failure? = some e ∧
    Orderly before place waiting ∧ (∀ k ∈ event.scanned?, k = place) ∧
      ∀ k ∈ event.applied?, k ∈ waiting

/-! ## Stacks -/

/-- The values and operators on the two stacks, with the places of the operators, where the nodes
before a place have been scanned: each value is that of what stands between two operators. -/
inductive Stacked (events : List (Event α)) :
    Bool → List α → List Operator → List ℕ → ℕ → Prop
  | start : Stacked events true [] [] [] 0
  | operand {operands pending waiting i j a} :
      Stacked events true operands pending waiting i → Computes events i j a →
      Stacked events false (a :: operands) pending waiting j
  | operator {operands pending waiting i op} :
      Stacked events false operands pending waiting i → .check i (.ok op) ∈ events →
      Stacked events true operands (op :: pending) (i :: waiting) (i + 1)

variable {operands : List α} {pending : List Operator} {waiting : List ℕ} {expected : Bool}

/-- Stacks are explained by more events as well. -/
theorem Stacked.mono (h : Stacked events expected operands pending waiting place)
    (hsub : events ⊆ later) : Stacked later expected operands pending waiting place := by
  induction h with
  | start => exact .start
  | operand _ hvalue ih => exact .operand ih (hvalue.mono hsub)
  | operator _ hcheck ih => exact .operator ih (hsub hcheck)

/-- Where an operator waits behind an operand, it has two operands. -/
theorem Stacked.exists_operands
    (h : Stacked events false operands (op :: pending) waiting place) :
    ∃ rhs lhs rest i k others, operands = rhs :: lhs :: rest ∧ waiting = k :: others ∧
      Stacked events true rest pending others i ∧ Computes events i k lhs ∧
        .check k (.ok op) ∈ events ∧ Computes events (k + 1) place rhs := by
  obtain _ | ⟨hopen, hrhs⟩ := h
  obtain _ | _ | ⟨hclosed, hcheck⟩ := hopen
  obtain _ | ⟨hopen, hlhs⟩ := hclosed
  exact ⟨_, _, _, _, _, _, rfl, rfl, hopen, hlhs, hcheck, hrhs⟩

/-- Where no operator waits, there is one value, that of all nodes before. -/
theorem Stacked.eq_singleton (h : Stacked events false operands [] waiting place) :
    ∃ a, operands = [a] ∧ waiting = [] ∧ Computes events 0 place a := by
  obtain _ | ⟨hopen, hvalue⟩ := h
  cases hopen
  exact ⟨_, rfl, rfl, hvalue⟩

/-! ## Steps -/

/-- From a state to which some events have led, a step leads to another one by further events.  Its
value has a property together with all of them, or its error has. -/
def Continues (happens : List (Event α) → σ → Prop) (P : β → List (Event α) → Prop)
    (F : Error → List (Event α) → Prop) (events : List (Event α))
    (step : ExceptT Error (StateM σ) β) : Prop :=
  ∀ state, happens events state → ∃ later after, happens later after ∧
    ((∃ b, step.run.run state = (.ok b, after) ∧ P b later) ∨
      ∃ e, step.run.run state = (.error e, after) ∧ F e later)

section Rules

variable {happens : List (Event α) → σ → Prop} {P : β → List (Event α) → Prop}
  {Q : γ → List (Event α) → Prop} {F : Error → List (Event α) → Prop}
  {step : ExceptT Error (StateM σ) β}

/-- A value that has the property already is given without an event. -/
theorem continues_pure {b : β} (h : P b events) :
    Continues happens P F events (pure b : ExceptT Error (StateM σ) β) :=
  fun state hstate => ⟨events, state, hstate, Or.inl ⟨b, rfl, h⟩⟩

/-- Steps follow each other, and so do their events. -/
theorem continues_bind {f : β → ExceptT Error (StateM σ) γ}
    (hstep : Continues happens P F events step)
    (hf : ∀ b later, P b later → Continues happens Q F later (f b)) :
    Continues happens Q F events (step >>= f) := by
  intro state hstate
  have hrun := run_bind step f state
  obtain ⟨later, after, hafter, ⟨b, hok, hb⟩ | ⟨e, herror, he⟩⟩ := hstep state hstate
  · obtain ⟨last, final, hfinal, hresult⟩ := hf b later hb after hafter
    rw [hok] at hrun
    exact ⟨last, final, hfinal, hrun ▸ hresult⟩
  · rw [herror] at hrun
    exact ⟨later, after, hafter, Or.inr ⟨e, hrun, he⟩⟩

/-- A step goes on to what follows from its property. -/
theorem Continues.mono {Q : β → List (Event α) → Prop} (h : Continues happens P F events step)
    (hPQ : ∀ b later, P b later → Q b later) : Continues happens Q F events step := by
  intro state hstate
  obtain ⟨later, after, hafter, ⟨b, hrun, hb⟩ | hfails⟩ := h state hstate
  · exact ⟨later, after, hafter, Or.inl ⟨b, hrun, hPQ b later hb⟩⟩
  · exact ⟨later, after, hafter, Or.inr hfails⟩

end Rules

section Fold

variable {type : ValueType} {operand : Node → ExceptT Error (StateM σ) α}
  {apply : α → Value → α → ExceptT Error (StateM σ) α} {nodes : List Node} {start : σ}
  {node : Node}

/-- Reading an operand adds one event, or fails with it. -/
theorem continues_operand (horder : Orderly events place waiting) (heven : place % 2 = 0)
    (hnode : nodes[place]? = some node) :
    Continues (Happens type operand apply nodes start)
      (fun a later => later = events ++ [.read place (.ok a)]) Failed events (operand node) := by
  intro state hstate
  rcases hrun : (operand node).run.run state with ⟨e | a, after⟩
  · refine ⟨_, after, hstate.read heven hnode hrun, Or.inr ⟨e, rfl, ?_⟩⟩
    exact ⟨events, _, place, waiting, rfl, rfl, horder, by simp [Event.scanned?],
      by simp [Event.applied?]⟩
  · exact ⟨_, after, hstate.read heven hnode hrun, Or.inl ⟨a, rfl, rfl⟩⟩

/-- Checking an operator adds one event, or fails with it. -/
theorem continues_operator (horder : Orderly events place waiting) (hodd : place % 2 = 1)
    (hnode : nodes[place]? = some node) :
    Continues (Happens type operand apply nodes start)
      (fun op later => later = events ++ [.check place (.ok op)]) Failed events
      (MonadExcept.ofExcept (operator type node) : ExceptT Error (StateM σ) Operator) := by
  intro state hstate
  have hafter := hstate.check hodd hnode
  rcases hop : operator type node with e | op
  · rw [hop] at hafter
    refine ⟨_, state, hafter, Or.inr ⟨e, rfl, ?_⟩⟩
    exact ⟨events, _, place, waiting, rfl, rfl, horder, by simp [Event.scanned?],
      by simp [Event.applied?]⟩
  · rw [hop] at hafter
    exact ⟨_, state, hafter, Or.inl ⟨op, rfl, rfl⟩⟩

/-- Applying an operator adds one event, or fails with it. -/
theorem continues_apply (horder : Orderly events place (k :: waiting))
    (hcheck : .check k (.ok op) ∈ events) (hlhs : Computes events i k a)
    (hrhs : Computes events (k + 1) j b) :
    Continues (Happens type operand apply nodes start)
      (fun c later => later = events ++ [.apply k a b (.ok c)]) Failed events
      (apply a op.value b) := by
  intro state hstate
  rcases hrun : (apply a op.value b).run.run state with ⟨e | c, after⟩
  · refine ⟨_, after, hstate.apply hcheck hlhs hrhs hrun, Or.inr ⟨e, rfl, ?_⟩⟩
    exact ⟨events, _, place, k :: waiting, rfl, rfl, horder, by simp [Event.scanned?],
      by simp [Event.applied?]⟩
  · exact ⟨_, after, hstate.apply hcheck hlhs hrhs hrun, Or.inl ⟨c, rfl, rfl⟩⟩

/-- Behind an operand, operators are applied in order while others, which are not on the stack yet,
wait behind them; without an incoming one all operators on the stack are applied. -/
theorem continues_applyPending (incoming : Option Precedence) {scanned : ℕ} {others : List ℕ}
    (hstack : Stacked events false operands pending waiting place)
    (horder : Orderly events scanned (waiting ++ others)) :
    Continues (Happens type operand apply nodes start)
      (fun left later => events ⊆ later ∧ (incoming = none → left.2 = []) ∧ ∃ waiting,
        Stacked later false left.1 left.2 waiting place ∧
          Orderly later scanned (waiting ++ others))
      Failed events (applyPending apply incoming operands pending) := by
  induction pending generalizing events operands waiting with
  | nil =>
    unfold applyPending
    exact continues_pure ⟨List.Subset.refl events, fun _ => rfl, waiting, hstack, horder⟩
  | cons top pending ih =>
    obtain ⟨rhs, lhs, rest, i, k, below, rfl, rfl, hopen, hlhs, hcheck, hrhs⟩ :=
      hstack.exists_operands
    unfold applyPending
    split
    · refine continues_bind (continues_apply horder hcheck hlhs hrhs) ?_
      rintro c later rfl
      -- The operator with its two operands becomes one operand.
      have hsub : events ⊆ events ++ [.apply k lhs rhs (.ok c)] := List.subset_append_left _ _
      have hvalue : Computes (events ++ [.apply k lhs rhs (.ok c)]) i place c :=
        .apply (hlhs.mono hsub) (hrhs.mono hsub) (by simp)
      exact (ih (.operand (hopen.mono hsub) hvalue) (horder.apply lhs rhs c)).mono
        (fun left last hleft => ⟨List.Subset.trans hsub hleft.1, hleft.2⟩)
    · next hwaits =>
      refine continues_pure ⟨List.Subset.refl events, ?_, k :: below, hstack, horder⟩
      rintro rfl
      exact absurd rfl hwaits

/-- The nodes that are left are scanned in order, and then all operators are applied. -/
theorem continues_scan {before rest : List Node} (hsplit : before ++ rest = nodes)
    (hplace : before.length = place) (hodd : nodes.length % 2 = 1)
    (hexpected : place % 2 = 0 ↔ expected = true)
    (hstack : Stacked events expected operands pending waiting place)
    (horder : Orderly events place waiting) :
    Continues (Happens type operand apply nodes start)
      (fun a later => Orderly later nodes.length [] ∧ Computes later 0 nodes.length a)
      Failed events (scan type operand apply expected operands pending rest) := by
  -- The kind of node that is expected is told by the place.
  induction rest generalizing before place expected events operands pending waiting with
  | nil =>
    obtain rfl : place = nodes.length := by
      rw [← hplace, ← hsplit, List.append_nil]
    obtain rfl : expected = false := by
      rw [← Bool.not_eq_true, ← hexpected]
      omega
    rw [← List.append_nil waiting] at horder
    unfold scan
    refine continues_bind (continues_applyPending none hstack horder) ?_
    rintro ⟨values, operators⟩ later ⟨_, hnone, remaining, hstack', horder'⟩
    obtain rfl : operators = [] := hnone rfl
    obtain ⟨a, rfl, rfl, hvalue⟩ := hstack'.eq_singleton
    exact continues_pure ⟨horder', hvalue⟩
  | cons node rest ih =>
    have hnode : nodes[place]? = some node := by
      rw [← hsplit, ← hplace, List.getElem?_append_right le_rfl, Nat.sub_self]
      rfl
    have hsplit' : (before ++ [node]) ++ rest = nodes := by
      rw [List.append_assoc, List.singleton_append, hsplit]
    have hplace' : (before ++ [node]).length = place + 1 := by
      rw [List.length_append, hplace, List.length_singleton]
    cases expected with
    | true =>
      have heven : place % 2 = 0 := hexpected.mpr rfl
      unfold scan
      refine continues_bind (continues_operand horder heven hnode) ?_
      rintro a later rfl
      have hsub : events ⊆ events ++ [.read place (.ok a)] := List.subset_append_left _ _
      have hvalue : Computes (events ++ [.read place (.ok a)]) place (place + 1) a :=
        .operand (by simp)
      refine ih hsplit' hplace' ?_ (.operand (hstack.mono hsub) hvalue) (horder.read heven a)
      simp only [Bool.false_eq_true, iff_false]
      omega
    | false =>
      have hone : place % 2 = 1 := by
        have : ¬ place % 2 = 0 := by
          rw [hexpected]
          exact Bool.false_ne_true
        omega
      unfold scan
      refine continues_bind (continues_operator horder hone hnode) ?_
      rintro op later rfl
      have hsub : events ⊆ events ++ [.check place (.ok op)] := List.subset_append_left _ _
      refine continues_bind
        (continues_applyPending _ (hstack.mono hsub) (horder.check hone op)) ?_
      rintro ⟨values, operators⟩ later ⟨hlater, _, remaining, hstack', horder'⟩
      have hcheck : .check place (.ok op) ∈ later := hlater (by simp)
      refine ih hsplit' hplace' ?_ (.operator hstack' hcheck)
        (horder'.perm (List.perm_append_singleton place remaining))
      simp only [iff_true]
      omega

end Fold

/-! ## Accounts -/

/-- **Accounts of a fold.**  The events of a fold of an odd number of nodes, with its result.  As
the functions of the caller may write a log into the state, the events are all that these were
called for. -/
structure Account (type : ValueType) (operand : Node → ExceptT Error (StateM σ) α)
    (apply : α → Value → α → ExceptT Error (StateM σ) α) (nodes : List Node) (start : σ)
    (events : List (Event α)) (result : Except Error α × σ) : Prop where
  happens : Happens type operand apply nodes start events result.2
  /-- The nodes are scanned from left to right, each once at most. -/
  scanned : ∃ place ≤ nodes.length, events.filterMap Event.scanned? = List.range place
  /-- Every operator is applied once at most. -/
  applied : (events.filterMap Event.applied?).Nodup
  /-- Nothing happens behind a failure. -/
  succeeds : ∀ event ∈ events.dropLast, event.failure? = none
  /-- The fold fails as an event of it did. -/
  failure_iff : ∀ e, result.1 = .error e ↔ ∃ event ∈ events, event.failure? = some e
  /-- The fold fails if a function of the caller failed, or if there is no operator where there
  should be one. -/
  error_iff : (∃ e, result.1 = .error e) ↔
    (∃ event ∈ events, event.IsCall ∧ event.failure? ≠ none) ∨
      ∃ place node, place % 2 = 1 ∧ nodes[place]? = some node ∧
        ¬ ∃ op, operator type node = .ok op
  /-- What is returned is computed from all nodes in their order, each of them used once. -/
  complete : ∀ a, result.1 = .ok a →
    events.filterMap Event.scanned? = List.range nodes.length ∧
      (events.filterMap Event.applied?).Perm ((List.range nodes.length).filter (· % 2 = 1)) ∧
        Computes events 0 nodes.length a

section Accounts

variable {type : ValueType} {operand : Node → ExceptT Error (StateM σ) α}
  {apply : α → Value → α → ExceptT Error (StateM σ) α} {nodes : List Node} {start final : σ}

/-- An operand that is read has an even place, and what is checked is the node at an odd one. -/
def Event.Fits (type : ValueType) (nodes : List Node) : Event α → Prop
  | .read place _ => place % 2 = 0 ∧ place < nodes.length
  | .check place answer => place % 2 = 1 ∧ ∃ node, nodes[place]? = some node ∧
      answer = operator type node
  | .apply .. => True

/-- All events that happen fit the nodes. -/
theorem Happens.fits (h : Happens type operand apply nodes start events final) :
    ∀ event ∈ events, event.Fits type nodes := by
  induction h with
  | start => exact List.forall_mem_nil _
  | read _ heven hnode _ ih =>
    rw [List.forall_mem_append, List.forall_mem_singleton]
    exact ⟨ih, ⟨heven, (List.getElem?_eq_some_iff.mp hnode).1⟩⟩
  | check _ hodd hnode ih =>
    rw [List.forall_mem_append, List.forall_mem_singleton]
    exact ⟨ih, ⟨hodd, _, hnode, rfl⟩⟩
  | apply _ _ _ _ _ ih =>
    rw [List.forall_mem_append, List.forall_mem_singleton]
    exact ⟨ih, trivial⟩

/-- A node is scanned at a place that there is. -/
theorem Event.Fits.lt_length (h : event.Fits type nodes) (hplace : event.scanned? = some place) :
    place < nodes.length := by
  cases event with
  | read =>
    obtain rfl := Option.some.inj hplace
    exact h.2
  | check =>
    obtain rfl := Option.some.inj hplace
    obtain ⟨node, hnode, _⟩ := h.2
    exact (List.getElem?_eq_some_iff.mp hnode).1
  | apply => cases hplace

/-- At an odd place that was scanned without a failure, there is an operator. -/
theorem Event.Fits.exists_operator {node : Node} (h : event.Fits type nodes)
    (hplace : event.scanned? = some place) (hodd : place % 2 = 1)
    (hnode : nodes[place]? = some node) (hsucceeds : event.failure? = none) :
    ∃ op, operator type node = .ok op := by
  cases event with
  | read =>
    obtain rfl := Option.some.inj hplace
    have := h.1
    omega
  | check _ answer =>
    obtain rfl := Option.some.inj hplace
    obtain ⟨node', hnode', rfl⟩ := h.2
    obtain rfl := Option.some.inj (hnode.symm.trans hnode')
    cases hop : operator type node with
    | ok op => exact ⟨op, rfl⟩
    | error e =>
      rw [hop] at hsucceeds
      cases hsucceeds
  | apply => cases hplace

/-- Where places from the first one on were scanned, they are places of the chain. -/
theorem le_length_of_fits (hfits : ∀ event ∈ events, event.Fits type nodes)
    (hscanned : events.filterMap Event.scanned? = List.range place) : place ≤ nodes.length := by
  cases place with
  | zero => exact Nat.zero_le _
  | succ last =>
    have hmem : last ∈ events.filterMap Event.scanned? := by
      rw [hscanned]
      exact List.mem_range.mpr (Nat.lt_succ_self last)
    obtain ⟨event, hevent, hlast⟩ := List.mem_filterMap.mp hmem
    exact (hfits event hevent).lt_length hlast

/-- If all nodes are scanned in order and no operator waits, then the value is accounted for. -/
theorem account_of_orderly (h : Happens type operand apply nodes start events final)
    (horder : Orderly events nodes.length []) (hvalue : Computes events 0 nodes.length a) :
    Account type operand apply nodes start events (.ok a, final) := by
  have happlied : (events.filterMap Event.applied?).Perm
      ((List.range nodes.length).filter (· % 2 = 1)) := by
    simpa only [List.append_nil] using horder.applied
  refine ⟨h, ⟨nodes.length, le_rfl, horder.scanned⟩, ?_, ?_, ?_, ?_, ?_⟩
  · exact happlied.nodup_iff.mpr (List.nodup_range.filter _)
  · exact fun event hevent => horder.succeeds event (List.mem_of_mem_dropLast hevent)
  · intro e
    refine ⟨nofun, ?_⟩
    rintro ⟨event, hevent, hfailure⟩
    rw [horder.succeeds event hevent] at hfailure
    cases hfailure
  · refine ⟨?_, ?_⟩
    · rintro ⟨e, he⟩
      cases he
    · rintro (⟨event, hevent, _, hfailure⟩ | ⟨place, node, hodd, hnode, hno⟩)
      · exact absurd (horder.succeeds event hevent) hfailure
      · -- The place was scanned, like all others.
        have hlt : place < nodes.length := (List.getElem?_eq_some_iff.mp hnode).1
        have hmem : place ∈ events.filterMap Event.scanned? := by
          rw [horder.scanned]
          exact List.mem_range.mpr hlt
        obtain ⟨event, hevent, hplace⟩ := List.mem_filterMap.mp hmem
        exact absurd ((h.fits event hevent).exists_operator hplace hodd hnode
          (horder.succeeds event hevent)) hno
  · intro b hb
    obtain rfl := Except.ok.inj hb
    exact ⟨horder.scanned, happlied, hvalue⟩

/-- If something failed, then the error is accounted for. -/
theorem account_of_failed (h : Happens type operand apply nodes start events final)
    (hfailed : Failed e events) :
    Account type operand apply nodes start events (.error e, final) := by
  obtain ⟨before, event, place, waiting, rfl, hfailure, horder, hscanned, happlied⟩ := hfailed
  have hlast : ∀ other ∈ before ++ [event], other.failure? ≠ none → other = event := by
    intro other hother hfails
    rcases List.mem_append.mp hother with hbefore | hevent
    · exact absurd (horder.succeeds other hbefore) hfails
    · exact List.mem_singleton.mp hevent
  have hevent : event ∈ before ++ [event] := List.mem_append_right _ (List.mem_singleton_self event)
  refine ⟨h, ?_, ?_, ?_, ?_, ?_, nofun⟩
  · have hplaces : ∃ place, (before ++ [event]).filterMap Event.scanned? = List.range place := by
      rw [List.filterMap_append, horder.scanned]
      cases hplace : event.scanned? with
      | none => exact ⟨place, by simp [hplace]⟩
      | some k =>
        obtain rfl := hscanned k hplace
        exact ⟨k + 1, by simp [hplace, List.range_succ]⟩
    obtain ⟨place, hplaces⟩ := hplaces
    exact ⟨place, le_length_of_fits h.fits hplaces, hplaces⟩
  · have hnodup : (before.filterMap Event.applied? ++ waiting).Nodup :=
      horder.applied.nodup_iff.mpr (List.nodup_range.filter _)
    rw [List.filterMap_append]
    refine hnodup.sublist (List.Sublist.append_left ?_ _)
    cases hplace : event.applied? with
    | none => simp [hplace]
    | some k => simpa [hplace] using happlied k hplace
  · rw [List.dropLast_concat]
    exact horder.succeeds
  · intro e'
    refine ⟨?_, ?_⟩
    · intro he
      obtain rfl := Except.error.inj he
      exact ⟨event, hevent, hfailure⟩
    · rintro ⟨other, hother, hfails⟩
      obtain rfl := hlast other hother (by simp [hfails])
      exact congrArg _ (Option.some.inj (hfailure.symm.trans hfails))
  · refine ⟨fun _ => ?_, fun _ => ⟨e, rfl⟩⟩
    cases event with
    | read => exact Or.inl ⟨_, hevent, trivial, by simp [hfailure]⟩
    | apply => exact Or.inl ⟨_, hevent, trivial, by simp [hfailure]⟩
    | check place answer =>
      -- Checking fails only where there is no operator.
      obtain ⟨hodd, node, hnode, rfl⟩ := h.fits _ hevent
      refine Or.inr ⟨place, node, hodd, hnode, ?_⟩
      rintro ⟨op, hop⟩
      rw [hop] at hfailure
      cases hfailure

/-- **Accounts of folding.**  An even number of nodes is refused before anything else happens; of
the fold of an odd number of nodes there is an account, whatever the functions of the caller do
with their state. -/
theorem fold_account (type : ValueType) (operand : Node → ExceptT Error (StateM σ) α)
    (apply : α → Value → α → ExceptT Error (StateM σ) α) (nodes : List Node) (start : σ) :
    (nodes.length % 2 = 0 → (fold type operand apply nodes).run.run start = (.error (.invalidState
      s!"operator chain needs an odd number of nodes, got {nodes.length}"), start)) ∧
    (nodes.length % 2 = 1 → ∃ events, Account type operand apply nodes start events
      ((fold type operand apply nodes).run.run start)) := by
  refine ⟨fun heven => ?_, fun hodd => ?_⟩
  · rw [fold, if_pos heven]
    rfl
  · have hfold : fold type operand apply nodes = scan type operand apply true [] [] nodes := by
      rw [fold, if_neg (by omega)]
    have hscan : Continues (Happens type operand apply nodes start)
        (fun a later => Orderly later nodes.length [] ∧ Computes later 0 nodes.length a)
        Failed [] (scan type operand apply true [] [] nodes) :=
      continues_scan (List.nil_append nodes) rfl hodd (by simp) .start .start
    rw [hfold]
    obtain ⟨events, final, hevents, ⟨a, hrun, horder, hvalue⟩ | ⟨e, hrun, hfailed⟩⟩ :=
      hscan start .start
    · rw [hrun]
      exact ⟨events, account_of_orderly hevents horder hvalue⟩
    · rw [hrun]
      exact ⟨events, account_of_failed hevents hfailed⟩

end Accounts

/-! ## Folding with a log -/

/-- Reads an operand and notes its text. -/
def noteOperand (node : Node) : ExceptT Error (StateM (List String)) String := do
  let text ← MonadExcept.ofExcept (Recipe.readPlain .text node)
  modify fun notes => notes ++ [text]
  return text

/-- Writes an application and notes it. -/
def noteApplication (lhs : String) (value : Value) (rhs : String) :
    ExceptT Error (StateM (List String)) String := do
  let text ← MonadExcept.ofExcept (Recipe.writeApplication lhs value rhs)
  modify fun notes => notes ++ [text]
  return text

/-- A chain without nodes is refused, and of the chain of one level there is an account. -/
theorem fold_account_mixedChain :
    (fold .char noteOperand noteApplication []).run.run [] =
        (.error (.invalidState "operator chain needs an odd number of nodes, got 0"), []) ∧
      ∃ events, Account .char noteOperand noteApplication mixedChain [] events
        ((fold .char noteOperand noteApplication mixedChain).run.run []) :=
  ⟨(fold_account .char noteOperand noteApplication [] []).1 rfl,
    (fold_account .char noteOperand noteApplication mixedChain []).2 rfl⟩

example : ((fold .char noteOperand noteApplication mixedChain).run.run []).2 =
    ["a", "b", "(a^b)", "c", "d", "(c^d)", "((a^b)-(c^d))"] := by
  rfl

-- Where an operator should be there is an operand: nothing is applied or read from then on.
example : ((fold .char noteOperand noteApplication
    [letter "a", sign '^' .right, letter "b", letter "c", letter "d"]).run.run []).2 =
      ["a", "b"] := by
  rfl

end OperatorChain

end TypedGrammar
