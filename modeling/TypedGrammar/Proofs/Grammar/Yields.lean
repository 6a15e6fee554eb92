import Mathlib.Data.List.Forall2
import TypedGrammar.Proofs.Grammar.Reading

/-!
# Nodes of trees

What trees yield when they are read: the texts of their tokens and the nodes that are made of them.
What some trees yield, and what those behind them yield, is what all of them yield together.
-/

namespace TypedGrammar

open TypedGrammar.Tree

/-- What is related to all members of a list is related to each one. -/
theorem exists_of_forall₂_right {α β : Type} {R : α → β → Prop} {as : List α} {bs : List β} {b : β}
    (h : List.Forall₂ R as bs) (hb : b ∈ bs) : ∃ a ∈ as, R a b := by
  induction h with
  | nil => cases hb
  | cons hab _ ih =>
    rcases List.mem_cons.mp hb with rfl | hb
    · exact ⟨_, List.mem_cons_self, hab⟩
    · obtain ⟨a, ha, hR⟩ := ih hb
      exact ⟨a, List.mem_cons_of_mem _ ha, hR⟩

/-- A node type makes nodes of its own kind. -/
theorem Maker.kind_of_declared {owner : DeclaredNode} {value : Contents → Except Error Value}
    {occurrence : Occurrence} {node : Node}
    (h : (Maker.declared owner value).make occurrence = .ok node) : node.kind = .declared owner := by
  rw [make] at h
  cases hvalue : value ⟨occurrence.location, occurrence.nodes⟩ with
  | error e =>
    rw [hvalue] at h
    cases h
  | ok v =>
    rw [hvalue] at h
    obtain rfl := Except.ok.inj h
    rfl

/-- The text of a token that stands for a term. -/
def Tree.termText? : Tree → Option String
  | .token (.term _) text => some text
  | _ => none

/-- The texts of the tokens among some trees, without trivia. -/
def Tree.termTexts (trees : List Tree) : List String :=
  trees.filterMap termText?

namespace Reading

variable {reading : Reading} {tree : Tree} {trees more : List Tree} {depth offset : ℕ}
  {parts : List Part} {made : Option Node} {index : TermIndex} {term : Term} {text : String}
  {children : List Tree} {R S T : List String → List Node → Prop}

/-- The first of some trees has a part unless it is trivia. -/
theorem parts_cons_ok (htrivia : tree.isTrivia = false)
    (h : reading.parts depth offset (tree :: trees) = .ok parts) :
    ∃ part rest, reading.term tree.kind = .ok part.term ∧
      reading.node depth offset tree = .ok part.node ∧
      reading.parts depth (offset + tree.byteLength) trees = .ok rest ∧ parts = part :: rest := by
  rw [Reading.parts, if_neg (Bool.eq_false_iff.mp htrivia)] at h
  obtain ⟨term, hterm, h⟩ := bind_eq_ok h
  obtain ⟨made, hmade, h⟩ := bind_eq_ok h
  obtain ⟨rest, hrest, h⟩ := bind_eq_ok h
  exact ⟨⟨term, made⟩, rest, hterm, hmade, hrest, (Except.ok.inj h).symm⟩

/-- Trees that follow each other have their parts one after the other. -/
theorem parts_append_ok (h : reading.parts depth offset (trees ++ more) = .ok parts) :
    ∃ first second, reading.parts depth offset trees = .ok first ∧
      reading.parts depth (offset + byteLengthOfAll trees) more = .ok second ∧
        parts = first ++ second := by
  induction trees generalizing offset parts with
  | nil =>
    refine ⟨[], parts, by rw [Reading.parts]; rfl, ?_, rfl⟩
    rwa [byteLengthOfAll, Nat.add_zero]
  | cons tree rest ih =>
    rw [List.cons_append] at h
    rw [byteLengthOfAll, ← Nat.add_assoc]
    cases htrivia : tree.isTrivia with
    | true =>
      rw [Reading.parts, if_pos htrivia] at h
      rw [Reading.parts, if_pos htrivia]
      exact ih h
    | false =>
      obtain ⟨part, others, hterm, hnode, hothers, rfl⟩ := parts_cons_ok htrivia h
      obtain ⟨first, second, hfirst, hsecond, rfl⟩ := ih hothers
      refine ⟨part :: first, second, ?_, hsecond, rfl⟩
      rw [Reading.parts, if_neg (Bool.eq_false_iff.mp htrivia), hterm, hnode, hfirst]
      rfl

/-- Wherever some trees are read, their texts and their nodes are related. -/
def Yields (reading : Reading) (trees : List Tree) (R : List String → List Node → Prop) : Prop :=
  ∀ depth offset parts, reading.parts depth offset trees = .ok parts →
    R (termTexts trees) (parts.filterMap (·.node))

theorem Yields.append (h : reading.Yields trees R) (h' : reading.Yields more S)
    (hboth : ∀ texts nodes texts' nodes', R texts nodes → S texts' nodes' →
      T (texts ++ texts') (nodes ++ nodes')) : reading.Yields (trees ++ more) T := by
  intro depth offset parts hparts
  obtain ⟨first, second, hfirst, hsecond, rfl⟩ := parts_append_ok hparts
  rw [termTexts, List.filterMap_append, List.filterMap_append]
  exact hboth _ _ _ _ (h depth offset first hfirst) (h' depth _ second hsecond)

/-- Trivia has neither texts nor nodes. -/
theorem yields_skipped (start stop : Cursor) :
    reading.Yields (skipped start stop) fun texts nodes => texts = [] ∧ nodes = [] := by
  intro depth offset parts hparts
  rcases skipped_cases start stop with h | ⟨text, h⟩
  · rw [h, Reading.parts] at hparts
    rw [h, ← Except.ok.inj hparts]
    exact ⟨rfl, rfl⟩
  · have htrivia : (Tree.token .trivia text).isTrivia = true := rfl
    rw [h, Reading.parts, if_pos htrivia, Reading.parts] at hparts
    rw [h, ← Except.ok.inj hparts]
    exact ⟨rfl, rfl⟩

/-- A single tree that is not trivia has the node that is made of it. -/
theorem yields_singleton (htrivia : tree.isTrivia = false)
    (h : ∀ depth offset made, reading.node depth offset tree = .ok made →
      R (termTexts [tree]) made.toList) : reading.Yields [tree] R := by
  intro depth offset parts hparts
  obtain ⟨part, rest, _, hnode, hrest, rfl⟩ := parts_cons_ok htrivia hparts
  rw [Reading.parts] at hrest
  obtain rfl := Except.ok.inj hrest
  have hmade := h depth offset part.node hnode
  cases hpart : part.node with
  | none =>
    rw [List.filterMap_cons_none hpart, List.filterMap_nil]
    rwa [hpart] at hmade
  | some node =>
    rw [List.filterMap_cons_some hpart, List.filterMap_nil]
    rwa [hpart] at hmade

/-- The tree of a node type that is shown has one node, of the kind of the type. -/
theorem yields_node {owner : DeclaredNode} {value : Contents → Except Error Value}
    (hterm : reading.language.term? index = some term)
    (hmaker : reading.makers[index.value]? = some (some (.declared owner value)))
    (hnode : term.flags.has .noNode = false) :
    reading.Yields [.node (.term index) children] fun texts nodes =>
      texts = [] ∧ ∃ node, nodes = [node] ∧ node.kind = .declared owner := by
  refine yields_singleton rfl fun depth offset made hmade => ⟨rfl, ?_⟩
  have hdeclared := maker?_term hmaker
  rw [Reading.node, term_of_term? hterm] at hmade
  obtain ⟨_, hok, hmade⟩ := bind_eq_ok hmade
  obtain rfl := Except.ok.inj hok
  rw [hnode] at hmade
  simp only [Bool.false_eq_true, if_false] at hmade
  split at hmade
  · cases hmade
  · obtain ⟨parts, _, hmade⟩ := bind_eq_ok hmade
    obtain ⟨node, hruleNode, hmade⟩ := bind_eq_ok hmade
    obtain rfl := Except.ok.inj hmade
    refine ⟨node, rfl, ?_⟩
    rw [Reading.ruleNode, hdeclared] at hruleNode
    exact Maker.kind_of_declared hruleNode

/-- A key term that is shown makes its node. -/
theorem yields_key {record : KeyRequest}
    (hterm : reading.language.term? index = some record.entry.toTerm)
    (hmaker : reading.makers[index.value]? = some record.entry.maker)
    (hpunctuation : record.flags.has .punctuation = false)
    (hnode : record.flags.has .noNode = false) :
    reading.Yields [.token (.term index) text] fun texts nodes =>
      texts = [text] ∧ ∃ location, nodes =
        [.key location record.value record.name record.text record.flags record.precedence] := by
  refine yields_singleton rfl fun depth offset made hmade => ⟨rfl, reading.locate offset, ?_⟩
  have hkey : reading.maker? (.term index) = some (.key record.value record.precedence) :=
    maker?_term hmaker
  rw [Reading.node, Reading.tokenNode, term_of_term? hterm, hkey] at hmade
  obtain ⟨_, hok, hmade⟩ := bind_eq_ok hmade
  obtain rfl := Except.ok.inj hok
  rw [show record.entry.flags = record.flags from rfl, hpunctuation, hnode] at hmade
  obtain rfl := Except.ok.inj hmade
  rfl

end Reading

end TypedGrammar
