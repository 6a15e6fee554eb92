import Mathlib.Data.Finset.Max
import Mathlib.Data.Nat.Find
import TypedGrammar.Node.Recipe
import TypedGrammar.Proofs.Node.Folding

/-!
# Readings of operator chains

How a chain of operands and operators is read, by its levels alone: the operator that is applied
last is the last one of minimal level that is not grouped to the right, or the first one of minimal
level if all that follow are, and what stands on its left and on its right is read in the same way.
Every chain is folded to what its reading computes.
-/

namespace TypedGrammar

namespace OperatorChain

/-! ## Roots -/

/-- An operator that may be applied last: it is of minimal level, and it is not grouped to the right
or the first one of this level. -/
def IsCandidate (ps : List Precedence) (i : ℕ) : Prop :=
  ∃ p, ps[i]? = some p ∧ (∀ q ∈ ps, p.level ≤ q.level) ∧
    (p.associativity ≠ .right ∨ ∀ q ∈ ps.take i, q.level ≠ p.level)

instance (ps : List Precedence) : DecidablePred (IsCandidate ps) := fun i =>
  match h : ps[i]? with
  | none => .isFalse (by rintro ⟨p, hp, _⟩; rw [h] at hp; cases hp)
  | some p =>
    decidable_of_iff ((∀ q ∈ ps, p.level ≤ q.level) ∧
        (p.associativity ≠ .right ∨ ∀ q ∈ ps.take i, q.level ≠ p.level)) (by simp [IsCandidate, h])

/-- The place of the operator that is applied last, among the operators of a chain. -/
def root (ps : List Precedence) : ℕ :=
  Nat.findGreatest (IsCandidate ps) ps.length

variable {ps : List Precedence} {p q : Precedence} {i : ℕ}

/-- A candidate is one of the operators. -/
theorem IsCandidate.lt_length (h : IsCandidate ps i) : i < ps.length := by
  obtain ⟨p, hp, _⟩ := h
  exact (List.getElem?_eq_some_iff.mp hp).1

/-- The root is the last candidate. -/
theorem IsCandidate.le_root (h : IsCandidate ps i) : i ≤ root ps :=
  Nat.le_findGreatest h.lt_length.le h

/-- In a chain with operators, the first one of minimal level is a candidate. -/
theorem exists_isCandidate (hne : ps ≠ []) : ∃ i, IsCandidate ps i := by
  have hnonempty : ps.toFinset.Nonempty := by
    simpa [List.toFinset_nonempty_iff] using hne
  obtain ⟨least, hmem, hleast⟩ := ps.toFinset.exists_min_image Precedence.level hnonempty
  simp only [List.mem_toFinset] at hmem hleast
  have hexists : ∃ i : ℕ, ∃ p : Precedence, ps[i]? = some p ∧ p.level = least.level := by
    obtain ⟨i, hi⟩ := List.mem_iff_getElem?.mp hmem
    exact ⟨i, least, hi, rfl⟩
  obtain ⟨p, hp, hlevel⟩ := Nat.find_spec hexists
  refine ⟨Nat.find hexists, p, hp, fun q hq => hlevel ▸ hleast q hq, Or.inr ?_⟩
  intro q hq hsame
  obtain ⟨j, hj, hget⟩ := List.mem_take_iff_getElem.mp hq
  refine Nat.find_min hexists (m := j) (by omega) ⟨q, ?_, hsame.trans hlevel⟩
  rw [List.getElem?_eq_getElem (by omega), hget]

/-- The root is a candidate, if there are operators at all. -/
theorem isCandidate_root (hne : ps ≠ []) : IsCandidate ps (root ps) := by
  obtain ⟨i, hi⟩ := exists_isCandidate hne
  exact Nat.findGreatest_spec hi.lt_length.le hi

/-- An operator binds before one of a lower level, and before one of its own level unless this
associates to the right. -/
theorem bindsBefore_iff :
    p.bindsBefore q = true ↔ q.level < p.level ∨ p.level = q.level ∧ q.associativity ≠ .right := by
  simp [Precedence.bindsBefore]

/-- All operators on the left of the root bind before it. -/
theorem bindsBefore_of_mem_take (hp : ps[root ps]? = some p) (hq : q ∈ ps.take (root ps)) :
    q.bindsBefore p = true := by
  have hne : ps ≠ [] := by
    rintro rfl
    simp at hp
  obtain ⟨p', hp', hminimal, hcandidate⟩ := isCandidate_root hne
  obtain rfl := Option.some.inj (hp.symm.trans hp')
  have hle := hminimal q (List.mem_of_mem_take hq)
  rw [bindsBefore_iff]
  rcases hle.lt_or_eq with hlt | hsame
  · exact Or.inl hlt
  · -- The root is not the first one of its level.
    refine Or.inr ⟨hsame.symm, hcandidate.resolve_right fun hfirst => ?_⟩
    exact hfirst q hq hsame.symm

/-- The root binds before no operator on its right. -/
theorem not_bindsBefore_of_mem_drop (hp : ps[root ps]? = some p)
    (hq : q ∈ ps.drop (root ps + 1)) : p.bindsBefore q = false := by
  have hne : ps ≠ [] := by
    rintro rfl
    simp at hp
  obtain ⟨p', hp', hminimal, _⟩ := isCandidate_root hne
  obtain rfl := Option.some.inj (hp.symm.trans hp')
  have hle := hminimal q (List.mem_of_mem_drop hq)
  rw [← Bool.not_eq_true, bindsBefore_iff]
  rintro (hlt | ⟨hsame, hright⟩)
  · omega
  · -- An operator of the same level that is not grouped to the right would be a later candidate.
    obtain ⟨j, hj⟩ := List.mem_iff_getElem?.mp hq
    rw [List.getElem?_drop] at hj
    have hlater : IsCandidate ps (root ps + 1 + j) :=
      ⟨q, hj, fun other hother => hsame ▸ hminimal other hother, Or.inl hright⟩
    have := hlater.le_root
    omega

/-! ## Chains -/

variable {type : ValueType}

/-- An operator of a chain with its node, and the operand behind it. -/
structure Link (type : ValueType) where
  node : Node
  operator : Operator
  operand : Node
  operator_eq : OperatorChain.operator type node = .ok operator

/-- The nodes of a chain. -/
def nodes (first : Node) (links : List (Link type)) : List Node :=
  first :: links.flatMap fun link => [link.node, link.operand]

/-- The precedences of the operators of a chain. -/
def precedences (links : List (Link type)) : List Precedence :=
  links.map (·.operator.precedence)

/-- A chain with operators at all odd places splits into links. -/
theorem exists_links : ∀ chain : List Node, chain.length % 2 = 0 →
    (∀ place node, place % 2 = 0 → chain[place]? = some node →
      ∃ op, operator type node = .ok op) →
    ∃ links : List (Link type), chain = links.flatMap fun link => [link.node, link.operand]
  | [], _, _ => ⟨[], rfl⟩
  | [_], hlength, _ => by simp at hlength
  | node :: operand :: rest, hlength, hoperators => by
    obtain ⟨op, hop⟩ := hoperators 0 node rfl rfl
    have heven : rest.length % 2 = 0 := by
      simp only [List.length_cons] at hlength
      omega
    obtain ⟨links, rfl⟩ := exists_links rest heven fun place next hplace hnext =>
      hoperators (place + 2) next (by omega) (by simpa using hnext)
    exact ⟨⟨node, op, operand, hop⟩ :: links, by simp⟩

/-- A list of nodes is a chain if there is an odd number of them and those at odd places are
operators. -/
theorem exists_nodes_eq {chain : List Node} (hodd : chain.length % 2 = 1)
    (hoperators : ∀ place node, place % 2 = 1 → chain[place]? = some node →
      ∃ op, operator type node = .ok op) :
    ∃ first, ∃ links : List (Link type), chain = nodes first links := by
  cases chain with
  | nil => simp at hodd
  | cons first rest =>
    have heven : rest.length % 2 = 0 := by
      simp only [List.length_cons] at hodd
      omega
    obtain ⟨links, hlinks⟩ := exists_links rest heven fun place node hplace hnode =>
      hoperators (place + 1) node (by omega) (by simpa using hnode)
    exact ⟨first, links, by rw [nodes, hlinks]⟩

/-- A chain is what stands on the left of an operator, the operator with its operand, and what
stands on the right of it. -/
theorem split_links {links : List (Link type)} {link : Link type}
    (h : links[i]? = some link) : links = links.take i ++ link :: links.drop (i + 1) := by
  obtain ⟨hi, hget⟩ := List.getElem?_eq_some_iff.mp h
  rw [← hget, ← List.drop_eq_getElem_cons hi, List.take_append_drop]

/-- The nodes of links behind others follow those of the others. -/
theorem nodes_append (first : Node) (before : List (Link type)) (link : Link type)
    (after : List (Link type)) :
    nodes first (before ++ link :: after) =
      nodes first before ++ link.node :: nodes link.operand after := by
  simp [nodes]

/-- The precedences of links behind others follow those of the others. -/
theorem precedences_append (before : List (Link type)) (link : Link type)
    (after : List (Link type)) :
    precedences (before ++ link :: after) =
      precedences before ++ link.operator.precedence :: precedences after := by
  simp [precedences]

/-! ## Readings -/

/-- Which operator of a chain is applied to which parts of it. -/
inductive Reading
  | operand (node : Node)
  | apply (left : Reading) (operator : Operator) (right : Reading)

/-- What a reading computes: its left part, then its right part, and its operator at last. -/
def Reading.eval {m : Type → Type} [Monad m] {α : Type} (operand : Node → m α)
    (apply : α → Value → α → m α) : Reading → m α
  | .operand node => operand node
  | .apply left op right => do
    let a ← left.eval operand apply
    let b ← right.eval operand apply
    apply a op.value b

/-- **The reading of a chain.**  Its root is applied to the readings of what stands on the left and
on the right of it; a single operand is its own reading. -/
def reading (first : Node) (links : List (Link type)) : Reading :=
  match h : links[root (precedences links)]? with
  | none => .operand first
  | some link =>
    .apply (reading first (links.take (root (precedences links)))) link.operator
      (reading link.operand (links.drop (root (precedences links) + 1)))
termination_by links.length
decreasing_by
  all_goals
    have := (List.getElem?_eq_some_iff.mp h).1
    simp only [List.length_take, List.length_drop]
    omega

theorem reading_nil (first : Node) : reading first ([] : List (Link type)) = .operand first := by
  rw [reading]
  rfl

/-- A reading applies the operator at the root to the readings on either side of it. -/
theorem reading_of_root {first : Node} {links : List (Link type)} {link : Link type}
    (h : links[root (precedences links)]? = some link) :
    reading first links =
      .apply (reading first (links.take (root (precedences links)))) link.operator
        (reading link.operand (links.drop (root (precedences links) + 1))) := by
  rw [reading]
  split
  · next hnone =>
    rw [h] at hnone
    cases hnone
  · next other hother =>
    rw [h] at hother
    obtain rfl := Option.some.inj hother
    rfl

variable {m : Type → Type} [Monad m] {α : Type} {operand : Node → m α}
  {apply : α → Value → α → m α}

/-- The reading of a chain is one of its groupings. -/
theorem grouping_reading (first : Node) (links : List (Link type)) :
    Grouping type operand apply (nodes first links) (precedences links)
      ((reading first links).eval operand apply) := by
  induction first, links using reading.induct with
  -- Without a root there are no operators.
  | case1 first links hnone =>
    have hnil : links = [] := by
      by_contra hne
      have hps : precedences links ≠ [] := by
        simpa [precedences] using hne
      have hlt := (isCandidate_root hps).lt_length
      rw [List.getElem?_eq_none_iff] at hnone
      simp only [precedences, List.length_map] at hlt hnone
      omega
    subst hnil
    rw [reading_nil]
    exact .operand
  | case2 first links link hlink ihLeft ihRight =>
    have hp : (precedences links)[root (precedences links)]? = some link.operator.precedence := by
      rw [precedences, List.getElem?_map, ← precedences, hlink, Option.map_some]
    -- All operators before the root bind before it, and it binds before none of those behind.
    have hbefore : ∀ q ∈ precedences (links.take (root (precedences links))),
        q.bindsBefore link.operator.precedence = true := by
      intro q hq
      rw [precedences, List.map_take] at hq
      exact bindsBefore_of_mem_take hp hq
    have hafter : ∀ q ∈ precedences (links.drop (root (precedences links) + 1)),
        link.operator.precedence.bindsBefore q = false := by
      intro q hq
      rw [precedences, List.map_drop] at hq
      exact not_bindsBefore_of_mem_drop hp hq
    have hwhole := Grouping.apply ihLeft link.operator_eq ihRight hbefore hafter
    rw [← nodes_append, ← precedences_append, ← split_links hlink] at hwhole
    rwa [reading_of_root hlink, Reading.eval]

/-- **Folding of chains.**  Nodes of which there is an odd number, with operators at all odd places,
are folded to what their reading computes: whatever the levels of the operators are, and whatever
the functions do that read operands and apply operators. -/
theorem fold_eq_eval_reading [LawfulMonad m] [MonadExceptOf Error m] {chain : List Node}
    (hodd : chain.length % 2 = 1)
    (hoperators : ∀ place node, place % 2 = 1 → chain[place]? = some node →
      ∃ op, operator type node = .ok op)
    (operand : Node → m α) (apply : α → Value → α → m α) :
    ∃ first, ∃ links : List (Link type), chain = nodes first links ∧
      fold type operand apply chain = (reading first links).eval operand apply := by
  obtain ⟨first, links, rfl⟩ := exists_nodes_eq hodd hoperators
  exact ⟨first, links, rfl, (grouping_reading first links).fold_eq⟩

/-! ## A chain of one level -/

/-- An operator of level one. -/
def sign (c : Char) (associativity : Associativity) : Node :=
  .key ⟨0, 0, 0, ""⟩ (.char c) "" (String.singleton c) .none (some ⟨1, associativity⟩)

/-- An operand. -/
def letter (name : String) : Node :=
  .identifier ⟨0, 0, 0, ""⟩ name

/-- The chain `a ^ b - c ^ d` with operators of one level, of which `^` is grouped to the right. -/
def mixedChain : List Node :=
  [letter "a", sign '^' .right, letter "b", sign '-' .left, letter "c", sign '^' .right, letter "d"]

/-- The nodes at odd places are operators. -/
theorem exists_operator_mixedChain (place : ℕ) (node : Node) (hplace : place % 2 = 1)
    (hnode : mixedChain[place]? = some node) : ∃ op, operator .char node = .ok op := by
  rcases place with _ | _ | _ | _ | _ | _ | _ | place <;>
    simp [mixedChain] at hplace hnode <;> subst hnode <;> exact ⟨_, rfl⟩

/-- The operator that is not grouped to the right is applied last. -/
theorem fold_eq_eval_reading_mixedChain : ∃ first, ∃ links : List (Link .char),
    mixedChain = nodes first links ∧
      fold .char (Recipe.readPlain .text) Recipe.writeApplication mixedChain =
        (reading first links).eval (Recipe.readPlain .text) Recipe.writeApplication :=
  fold_eq_eval_reading rfl exists_operator_mixedChain _ _

example : fold .char (Recipe.readPlain .text) Recipe.writeApplication mixedChain =
    .ok "((a^b)-(c^d))" := by
  rfl

end OperatorChain

end TypedGrammar
