import Mathlib.Logic.Relation
import TypedGrammar.Proofs.Grammar.Brackets
import TypedGrammar.Proofs.Grammar.DroppedTerms

/-!
# Normal forms

Whatever the constructors of nodes and the reading of trees give, and whatever is inside of it at
any depth: no sequence consists of exactly one sequence, and no optional and no brace holds a
sequence of exactly one node.  A sequence has the nodes it is given, or those at the top of the
tower of sequences that it is given.
-/

namespace TypedGrammar

namespace Node

variable {node outer inner : Node} {top nodes : List Node} {location : Location}

/-- The nodes directly inside of a node: what an optional or a brace holds, or the nodes below. -/
def inside : Node → List Node
  | present _ inner => [inner]
  | brace _ _ _ nested => [nested]
  | node => node.children

/-- Nodes inside of a node at some depth, the node itself included. -/
abbrev Within (outer inner : Node) : Prop :=
  Relation.ReflTransGen (fun outer inner => inner ∈ outer.inside) outer inner

/-- **Normal form.**  The node itself has no needless layer. -/
structure IsNormal (node : Node) : Prop where
  sequence : ∀ l l' ns, node ≠ .sequence l [.sequence l' ns]
  optional : ∀ l l' n, node ≠ .present l (.sequence l' [n])
  brace : ∀ l opening closing l' n, node ≠ .brace l opening closing (.sequence l' [n])

/-- **Construction.**  A node that comes from a constructor, from a maker that is given such nodes,
or from the inside of such a node. -/
inductive IsConstructed : Node → Prop
  | sequence (location : Location) {children : List Node} (h : ∀ n ∈ children, IsConstructed n) :
    IsConstructed (ofSequence location children)
  | optional (location : Location) {inner : Option Node}
    (h : ∀ n, inner = some n → IsConstructed n) : IsConstructed (ofOptional location inner)
  | list (location : Location) (element : ValueType) {children : List Node}
    (h : ∀ n ∈ children, IsConstructed n) : IsConstructed (ofList location element children)
  | identifier (location : Location) (symbol : String) : IsConstructed (.identifier location symbol)
  | literal (location : Location) (value : Value) (raw : String) :
    IsConstructed (.literal location value raw)
  | make {node : Node} (maker : Maker) (occurrence : Occurrence)
    (h : maker.make occurrence = .ok node) (hnodes : ∀ n ∈ occurrence.nodes, IsConstructed n) :
    IsConstructed node
  | inside {outer inner : Node} (h : IsConstructed outer) (hinner : inner ∈ outer.inside) :
    IsConstructed inner

/-- Nodes that are made of made nodes only are constructed. -/
theorem IsMade.isConstructed (h : node.IsMade) : node.IsConstructed := by
  induction h with
  | make maker occurrence hmake _ ih => exact .make maker occurrence hmake ih

/-! ## Layers at every depth -/

/-- A tidy node is normal. -/
theorem IsTidy.isNormal (h : node.IsTidy) : node.IsNormal := by
  constructor
  · rintro l l' ns rfl
    cases h with
    | sequence _ _ hsole => exact hsole l' ns rfl
  · rintro l l' n rfl
    cases h with
    | present _ _ hsole => exact hsole l' n rfl
  · rintro l opening closing l' n rfl
    cases h with
    | brace _ _ _ _ hsole => exact hsole l' n rfl

/-- What is inside of a tidy node is tidy. -/
theorem IsTidy.of_mem_inside (h : outer.IsTidy) (hinner : inner ∈ outer.inside) :
    inner.IsTidy := by
  cases h with
  | sequence _ h _ => exact h inner hinner
  | present _ h _ => exact List.mem_singleton.mp hinner ▸ h
  | brace _ _ _ h _ => exact List.mem_singleton.mp hinner ▸ h
  | list _ _ h => exact h inner hinner
  | declared _ _ _ h => exact h inner hinner
  | absent | identifier | key | constant | literal => exact absurd hinner List.not_mem_nil

/-- Whatever is within a tidy node is tidy. -/
theorem IsTidy.of_within (h : outer.IsTidy) (hwithin : outer.Within inner) : inner.IsTidy := by
  induction hwithin with
  | refl => exact h
  | tail _ hinner ih => exact ih.of_mem_inside hinner

/-- **One step.**  Each way to construct a node keeps nodes tidy. -/
theorem IsConstructed.isTidy (h : node.IsConstructed) : node.IsTidy := by
  -- Nodes that are taken out of a tidy one are tidy, so all layers below are part of the invariant.
  induction h with
  | sequence location _ ih => exact isTidy_ofSequence ih
  | optional location _ ih => exact isTidy_ofOptional ih
  | list location element _ ih =>
    exact .list location element fun n hn => ih n (List.mem_filter.mp hn).1
  | identifier location symbol => exact .identifier location symbol
  | literal location value raw => exact .literal location value raw
  | make maker occurrence hmake _ ih => exact Maker.isTidy_of_make hmake ih
  | inside _ hinner ih => exact ih.of_mem_inside hinner

/-! ## Towers -/

/-- A tower of sequences of one node each, from the outermost to the one with the nodes at the
top. -/
def tower (top : List Node) : List Location → List Node
  | [] => top
  | location :: locations => [.sequence location (tower top locations)]

mutual

/-- A node is a tower, and what is found at its top is not a single sequence again. -/
theorem exists_tower_singleton : ∀ node : Node, ∃ locations,
    [node] = tower (towerTop node) locations ∧ ∀ l ns, towerTop node ≠ [.sequence l ns]
  | .sequence location children => by
    obtain ⟨locations, htower, htop⟩ := exists_tower children
    rw [towerTop]
    exact ⟨location :: locations, by rw [tower, ← htower], htop⟩
  | .absent _ | .present _ _ | .brace _ _ _ _ | .identifier _ _ | .key _ _ _ _ _ _
  | .constant _ _ | .literal _ _ _ | .list _ _ _ | .declared _ _ _ _ =>
    ⟨[], rfl, nofun⟩

/-- Nodes are a tower, and what is found at its top is not a single sequence again. -/
theorem exists_tower : ∀ nodes : List Node, ∃ locations,
    nodes = tower (towerTopOf nodes) locations ∧ ∀ l ns, towerTopOf nodes ≠ [.sequence l ns]
  | [only] => exists_tower_singleton only
  | [] | _ :: _ :: _ => ⟨[], rfl, nofun⟩

end

/-- Where there is no single sequence, nothing is taken away. -/
theorem towerTopOf_of_ne (h : ∀ l ns, nodes ≠ [.sequence l ns]) : towerTopOf nodes = nodes := by
  obtain ⟨locations, htower, _⟩ := exists_tower nodes
  cases locations with
  | nil => exact htower.symm
  | cons l locations => exact absurd htower (h l _)

/-- **Children of sequences.**  Nodes are a tower with something at its top, which a sequence of the
nodes has as its children, and so has a sequence of these. -/
theorem exists_ofSequence_eq (location : Location) (nodes : List Node) :
    ∃ locations top, nodes = tower top locations ∧ (∀ l ns, top ≠ [.sequence l ns]) ∧
      ofSequence location nodes = .sequence location top ∧
      ∀ l, ofSequence l top = .sequence l top := by
  obtain ⟨locations, htower, htop⟩ := exists_tower nodes
  refine ⟨locations, towerTopOf nodes, htower, htop, rfl, fun l => ?_⟩
  rw [ofSequence, towerTopOf_of_ne htop]

end Node

/-- What is parsed is constructed. -/
theorem Grammar.isConstructed_of_parse {grammar : Grammar} {text source : String}
    {threshold : Severity} {node : Node} (h : grammar.parse text source threshold = .ok node) :
    node.IsConstructed := by
  cases hbuilt : grammar.built with
  | none =>
    rw [Grammar.parse, Grammar.use, hbuilt] at h
    cases h
  | some built =>
    obtain ⟨_, tree, _, _, hread, _⟩ := Grammar.document_of_parse hbuilt h
    cases tree with
    | token kind text => cases hread
    | node kind children =>
      obtain ⟨_, _, _, _, _, _, hnode⟩ := Reading.exists_rule_of_document hread
      exact (Reading.isMade_of_node hnode).isConstructed

namespace Node

/-- **Layers of composite nodes.**  Whatever is constructed is in normal form, and so is what is
inside of it at any depth; whatever is read of a tree, or parsed, is constructed.  A sequence of
some nodes has just these as its children, or, if they are a tower of sequences, the nodes at the
top of it; and a sequence of its children is again a sequence with these children. -/
theorem isNormal_within :
    (∀ outer : Node, outer.IsConstructed → ∀ inner, outer.Within inner → inner.IsNormal) ∧
    (∀ (reading : Reading) depth offset tree node,
      reading.node depth offset tree = .ok (some node) → node.IsConstructed) ∧
    (∀ (grammar : Grammar) text source threshold node,
      grammar.parse text source threshold = .ok node → node.IsConstructed) ∧
    ∀ location nodes, ∃ locations top,
      nodes = tower top locations ∧ (∀ l ns, top ≠ [.sequence l ns]) ∧
      ofSequence location nodes = .sequence location top ∧
      ∀ l, ofSequence l top = .sequence l top := by
  refine ⟨fun outer houter inner hwithin => ?_, fun reading depth offset tree node h => ?_,
    fun grammar text source threshold node h => ?_, exists_ofSequence_eq⟩
  · exact (houter.isTidy.of_within hwithin).isNormal
  · exact (Reading.isMade_of_node h).isConstructed
  · exact Grammar.isConstructed_of_parse h

/-! ### A wrapped word

A word as the only node of a sequence, which is the only node of another one, as an optional. -/

open Occurrence (column)

/-- The word. -/
def word : Node :=
  .identifier (column 0) "a"

/-- The word in two sequences and an optional. -/
def wrappedWord : Node :=
  ofOptional (column 3) (some (ofSequence (column 2) [ofSequence (column 1) [word]]))

theorem isConstructed_wrappedWord : wrappedWord.IsConstructed := by
  have hsingle : ∀ (l : Location) (n : Node), n.IsConstructed →
      (ofSequence l [n]).IsConstructed := fun l n hn =>
    .sequence l (List.forall_mem_singleton.mpr hn)
  refine .optional (column 3) ?_
  rintro n ⟨⟩
  exact hsingle _ _ (hsingle _ _ (.identifier (column 0) "a"))

/-- Only the optional is left around the word; and what is parsed of a text is in normal form. -/
theorem isNormal_within_wrappedWord :
    wrappedWord = .present (column 3) word ∧ wrappedWord.IsNormal ∧ word.IsNormal ∧
      PunctuatedRule.node.IsNormal ∧
      ∃ locations top, [.sequence (column 1) [word]] = tower top locations ∧
        ofSequence (column 2) [.sequence (column 1) [word]] = .sequence (column 2) top := by
  obtain ⟨hnormal, _, hparse, hsequence⟩ := isNormal_within
  have hword : wrappedWord.Within word := .single List.mem_cons_self
  obtain ⟨locations, top, htower, _, hmade, _⟩ :=
    hsequence (column 2) [.sequence (column 1) [word]]
  exact ⟨rfl, hnormal _ isConstructed_wrappedWord _ .refl,
    hnormal _ isConstructed_wrappedWord _ hword,
    hnormal _ (hparse _ _ _ _ _ PunctuatedRule.parse_eq) _ .refl, locations, top, htower, hmade⟩

end Node

end TypedGrammar
