import TypedGrammar.Proofs.Grammar.Yields

/-!
# Trees that are read

Which trees are read without a failure, and into which parts.  What is made of some trees and of
those behind them is put together, and a rule is read if its children are and its maker accepts
their parts.
-/

namespace TypedGrammar

open TypedGrammar.Tree

namespace Reading

variable {reading : Reading} {tree : Tree} {trees more : List Tree} {depth : ℕ} {index : TermIndex}
  {term : Term} {maker : Maker} {text : String} {children : List Tree}
  {P Q : List Part → Prop}

/-- At a depth, some trees are read wherever they stand, and their parts have a property. -/
def Makes (reading : Reading) (depth : ℕ) (trees : List Tree) (P : List Part → Prop) : Prop :=
  ∀ offset, ∃ parts, reading.parts depth offset trees = .ok parts ∧ P parts

/-- The parts of trees that follow each other are those of the first and those of the second. -/
theorem parts_append {offset : ℕ} {first second : List Part}
    (h : reading.parts depth offset trees = .ok first)
    (h' : reading.parts depth (offset + byteLengthOfAll trees) more = .ok second) :
    reading.parts depth offset (trees ++ more) = .ok (first ++ second) := by
  induction trees generalizing offset first with
  | nil =>
    rw [Reading.parts] at h
    obtain rfl := Except.ok.inj h
    rwa [byteLengthOfAll, Nat.add_zero] at h'
  | cons tree rest ih =>
    rw [byteLengthOfAll, ← Nat.add_assoc] at h'
    rw [List.cons_append]
    cases htrivia : tree.isTrivia with
    | true =>
      rw [Reading.parts, if_pos htrivia] at h ⊢
      exact ih h h'
    | false =>
      obtain ⟨part, others, hterm, hnode, hothers, rfl⟩ := parts_cons_ok htrivia h
      rw [Reading.parts, if_neg (Bool.eq_false_iff.mp htrivia), hterm, hnode, ih hothers h']
      rfl

theorem Makes.imp (h : reading.Makes depth trees P) (hPQ : ∀ parts, P parts → Q parts) :
    reading.Makes depth trees Q := by
  intro offset
  obtain ⟨parts, hparts, hP⟩ := h offset
  exact ⟨parts, hparts, hPQ parts hP⟩

theorem Makes.append (h : reading.Makes depth trees P) (h' : reading.Makes depth more Q) :
    reading.Makes depth (trees ++ more) fun parts =>
      ∃ first second, P first ∧ Q second ∧ parts = first ++ second := by
  intro offset
  obtain ⟨first, hfirst, hP⟩ := h offset
  obtain ⟨second, hsecond, hQ⟩ := h' (offset + byteLengthOfAll trees)
  exact ⟨first ++ second, parts_append hfirst hsecond, first, second, hP, hQ, rfl⟩

/-- Nothing is made of trivia. -/
theorem makes_trivia (h : ∀ tree ∈ trees, tree.isTrivia = true) :
    reading.Makes depth trees (· = []) := by
  intro offset
  refine ⟨[], ?_, rfl⟩
  induction trees generalizing offset with
  | nil =>
    rw [Reading.parts]
    rfl
  | cons tree rest ih =>
    rw [Reading.parts, if_pos (h tree List.mem_cons_self)]
    exact ih (fun t ht => h t (List.mem_cons_of_mem _ ht)) _

/-- What is made of trees is made of them behind trivia. -/
theorem Makes.behind (h : reading.Makes depth more P)
    (htrivia : ∀ tree ∈ trees, tree.isTrivia = true) : reading.Makes depth (trees ++ more) P := by
  refine ((makes_trivia htrivia).append h).imp ?_
  rintro _ ⟨_, second, rfl, hP, rfl⟩
  exact hP

/-- One part is made of a single tree that is not trivia. -/
theorem makes_singleton (htrivia : tree.isTrivia = false)
    (hterm : reading.term tree.kind = .ok term)
    (h : ∀ offset, ∃ made, reading.node depth offset tree = .ok made ∧ P [⟨term, made⟩]) :
    reading.Makes depth [tree] P := by
  intro offset
  obtain ⟨made, hmade, hP⟩ := h offset
  refine ⟨[⟨term, made⟩], ?_, hP⟩
  rw [Reading.parts, if_neg (Bool.eq_false_iff.mp htrivia), hterm, hmade, Reading.parts]
  rfl

variable (hterm : reading.language.term? index = some term)
  (hmaker : reading.makers[index.value]? = some (some maker))
  (hnode : term.flags.has .noNode = false)
include hterm hmaker hnode

/-- A token is read by its maker, if it is not punctuation. -/
theorem makes_token (hpunctuation : term.flags.has .punctuation = false)
    (h : ∀ location, ∃ node, maker.make ⟨term, location, some text, []⟩ = .ok node ∧
      P [⟨term, some node⟩]) :
    reading.Makes depth [.token (.term index) text] P := by
  refine makes_singleton rfl (term_of_term? hterm) fun offset => ?_
  obtain ⟨node, hmake, hP⟩ := h (reading.locate offset)
  refine ⟨some node, ?_, hP⟩
  rw [Reading.node, Reading.tokenNode, term_of_term? hterm, maker?_term hmaker]
  simp only [bind, Except.bind, hpunctuation, hnode, Bool.or_self, Bool.false_eq_true, if_false,
    hmake]
  rfl

/-- A rule within the nesting limit is read by its maker from what is made of its children. -/
theorem makes_rule (hdepth : depth ≤ nestingLimit)
    (hchildren : reading.Makes (depth + 1) children P)
    (h : ∀ location parts, P parts →
      ∃ node, maker.make ⟨term, location, none, parts⟩ = .ok node ∧ Q [⟨term, some node⟩]) :
    reading.Makes depth [.node (.term index) children] Q := by
  refine makes_singleton rfl (term_of_term? hterm) fun offset => ?_
  obtain ⟨parts, hparts, hP⟩ := hchildren offset
  obtain ⟨node, hmake, hQ⟩ := h (reading.locateTree offset (.node (.term index) children)) parts hP
  refine ⟨some node, ?_, hQ⟩
  rw [node_eq (term_of_term? hterm) hnode hdepth, hparts]
  show (reading.ruleNode _ _ >>= _) = _
  rw [Reading.ruleNode, maker?_term hmaker, Option.getD_some, hmake]
  rfl

end Reading

end TypedGrammar
