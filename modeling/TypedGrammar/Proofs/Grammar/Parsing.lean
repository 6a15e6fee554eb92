import TypedGrammar.Proofs.Grammar.Reading

/-!
# Parsing with a built grammar

An accepted text is parsed into the value of its root, unless a maker refuses something: either a
part below the root is rejected, or the build of the root is reached and decides.
-/

namespace TypedGrammar

open TypedGrammar.Tree

/-- What the trees of a text are read with. -/
def BuiltGrammar.reading (built : BuiltGrammar) (text source : String) : Reading :=
  ⟨built.language, built.makers, LineTable.ofText text, source⟩

namespace Grammar

variable {description : GrammarDescription} {grammar : Grammar} {built : BuiltGrammar}
  {type : NodeDeclaration} {text source : String} {parse : Parse} {tree : Tree} {e : Error}
  {term : Term} {shape : Shape} {children rest : List Tree} {contents : Contents}

/-- **Reaching the root.**  The parse of a text reaches the build of the root with some contents:
where the root stands, and the nodes of the parts below it. -/
structure Reaches (grammar : Grammar) (built : BuiltGrammar) (text source : String)
    (children : List Tree) (contents : Contents) : Prop where
  isBuilt : grammar.built = some built
  accepted : ∃ parse rest, built.language.parse? text = some parse ∧
    parse.tree = some (.node .document (.node (.term built.language.root) children :: rest))
  location : contents.location =
    (built.reading text source).locateTree 0 (.node (.term built.language.root) children)
  parts : ∃ parts, (built.reading text source).parts 1 0 children = .ok parts ∧
    contents.children = parts.filterMap (·.node)

/-- Where the build of the root is reached, the trees below the root are what its shape derives. -/
theorem Reaches.derives (h : grammar.Reaches built text source children contents)
    (hdef : built.language.Defines built.language.root term shape) :
    ∃ below start stop, built.language.Derives below [shape] start children stop := by
  obtain ⟨parse, rest, hparse, htree⟩ := h.accepted
  obtain ⟨trees, middle, stop, htrees, _, _, hdocument⟩ := Language.derives_of_parse? hparse htree
  injection hdocument with _ hdocument
  have hmem : .node (.term built.language.root) children ∈ trees ++ skipped middle stop := by
    rw [← hdocument]
    exact List.mem_cons_self
  rcases List.mem_append.mp hmem with hmem | hmem
  · obtain ⟨below, term', shape', start, stop, hdef', hchildren⟩ := htrees.exists_of_node hmem
    obtain rfl := Option.some.inj (hdef.1.symm.trans hdef'.1)
    have hshape := hdef.2.symm.trans hdef'.2
    injection hshape with hshape
    obtain rfl := Option.some.inj hshape
    exact ⟨below, start, stop, hchildren⟩
  · obtain ⟨text, htoken⟩ := mem_skipped hmem
    cases htoken

/-- A text that has a tree is parsed by reading the tree, whatever the threshold. -/
theorem parse_eq_rootNode (hbuilt : grammar.built = some built)
    (h : built.language.parse? text = some parse) (htree : parse.tree = some tree)
    (threshold : Severity) :
    grammar.parse text source threshold = grammar.rootNode (built.reading text source) tree := by
  have herrors : parse.errors = [] := by
    rw [Language.errors_eq_nil_iff h, htree]
    rfl
  have huse : grammar.use = .ok built := by
    rw [use, hbuilt]
  unfold Grammar.parse
  rw [huse, ok_bind]
  simp only [h, htree, herrors]
  rfl

section Root

variable (htype : grammar.description.types[grammar.description.root]? = some type)
  (hterm : built.language.term? built.language.root = some term)
  (hmaker : built.makers[built.language.root.value]? =
    some (some (.declared type.identity type.value)))
include hmaker

/-- The maker of the root hands the parts to the build of its type. -/
theorem ruleNode_root (occurrence : Occurrence) :
    (built.reading text source).ruleNode (.term built.language.root) occurrence =
      (type.value ⟨occurrence.location, occurrence.nodes⟩).map
        (.declared occurrence.location type.identity · occurrence.nodes) := by
  have hmake : (built.reading text source).maker? (.term built.language.root) =
      some (.declared type.identity type.value) := Reading.maker?_term hmaker
  rw [Reading.ruleNode, hmake]
  rfl

/-- What the maker of the root makes is an occurrence of the root type. -/
theorem isRoot_of_ruleNode (htype : grammar.description.types[grammar.description.root]? = some type)
    {occurrence : Occurrence} {made : Node}
    (h : (built.reading text source).ruleNode (.term built.language.root) occurrence = .ok made) :
    grammar.isRoot made = true := by
  rw [ruleNode_root hmaker] at h
  cases hvalue : type.value ⟨occurrence.location, occurrence.nodes⟩ with
  | error e =>
    rw [hvalue] at h
    cases h
  | ok value =>
    rw [hvalue] at h
    rw [isRoot, htype, ← Except.ok.inj h]
    exact decide_eq_true rfl

include htype hterm

/-- The root is made from the parts below it by its build. -/
theorem rootNode_eq (hnode : term.flags.has .noNode = false) :
    grammar.rootNode (built.reading text source)
        (.node .document (.node (.term built.language.root) children :: rest)) =
      (built.reading text source).parts 1 0 children >>= fun parts =>
        (built.reading text source).ruleNode (.term built.language.root)
          ⟨term, (built.reading text source).locateTree 0
            (.node (.term built.language.root) children), none, parts⟩ := by
  unfold rootNode
  rw [Reading.document]
  simp only [Reading.firstNode?]
  rw [Reading.node_eq (Reading.term_of_term? hterm) hnode (Nat.zero_le _)]
  cases (built.reading text source).parts 1 0 children with
  | error e => rfl
  | ok parts =>
    show ((built.reading text source).ruleNode _ _ >>= _) >>= _ =
      (built.reading text source).ruleNode _ _
    cases hmade : (built.reading text source).ruleNode (.term built.language.root)
        ⟨term, (built.reading text source).locateTree 0
          (.node (.term built.language.root) children), none, parts⟩ with
    | error e => rfl
    | ok made =>
      -- The node that is made is the one that is asked for.
      have hisRoot := isRoot_of_ruleNode hmaker htype hmade
      show (if grammar.isRoot made then _ else _) = _
      rw [if_pos hisRoot]
      rfl

end Root

/-- **Parsing.**  In a built grammar whose root makes a node, the nodes of an accepted text are
nested no deeper than the nesting limit, so its tree is shown as a whole; and the text is parsed,
unless the maker of some part of the tree refuses what it is given. -/
theorem parse_ok_or_rejects {threshold : Severity}
    (hbuild : (Grammar.mk description none).build threshold = (.ok true, grammar))
    (hbuilt : grammar.built = some built)
    (hroot : ∀ term, built.language.term? built.language.root = some term →
      term.flags.has .transient = false ∧ term.flags.has .noNode = false)
    (h : built.language.parse? text = some parse) (htree : parse.tree = some tree) :
    (∃ children, tree = .node .document children ∧
        ∀ child ∈ children, child.height ≤ nestingLimit) ∧
      grammar.treeText text = .ok (built.language.wholeLines 0 tree) ∧
      ∀ source threshold, (∃ node, grammar.parse text source threshold = .ok node) ∨
        ∃ e, grammar.parse text source threshold = .error e ∧
          (built.reading text source).Rejects 0 tree e := by
  obtain ⟨built', hcompile, _, rfl⟩ := build_ok hbuild
  obtain rfl := Option.some.inj hbuilt
  obtain ⟨type, term, shape, htype, hdef, hmaker⟩ := GrammarDescription.root_of_compile hcompile
  obtain ⟨htransient, hnode⟩ := hroot term hdef.1
  refine ⟨Language.height_le_of_parse? h htree, ?_, fun source threshold => ?_⟩
  · have huse : (Grammar.mk description (some built')).use = .ok built' := rfl
    rw [treeText, huse, ok_bind]
    simp only [h, Language.displayParse, htree]
    rw [Language.displayTree_eq_of_parse? h htree]
    rfl
  · rw [parse_eq_rootNode rfl h htree]
    obtain ⟨below, children, middle, stop, hroom, hchildren, rfl⟩ :=
      Language.document_of_parse? hdef htransient h htree
    rw [rootNode_eq htype hdef.1 hmaker hnode]
    cases hparts : (built'.reading text source).parts 1 0 children with
    | error e =>
      obtain ⟨before, child, behind, rfl, hrejects⟩ :=
        Reading.rejects_of_parts_of hchildren.names (fun child hchild offset htrivia h => by
          have hheight := hchildren.height_le child hchild
          exact Reading.rejects_of_node (hchildren.names child hchild) htrivia (by omega) h) hparts
      exact Or.inr ⟨e, rfl, .first (.inside hrejects)⟩
    | ok parts =>
      -- Only the maker of the root is left to refuse.
      show (∃ node, (built'.reading text source).ruleNode _ _ = .ok node) ∨
        ∃ e, (built'.reading text source).ruleNode _ _ = .error e ∧ _
      cases hmade : (built'.reading text source).ruleNode (.term built'.language.root)
          ⟨term, (built'.reading text source).locateTree 0
            (.node (.term built'.language.root) children), none, parts⟩ with
      | ok node => exact Or.inl ⟨node, rfl⟩
      | error e =>
        have hterm : (built'.reading text source).term (.term built'.language.root) = .ok term :=
          Reading.term_of_term? hdef.1
        exact Or.inr ⟨e, rfl, .first (Reading.rejects_of_ruleNode hterm hparts hmade)⟩

/-- Two items with an operator between them are parsed, or rejected by a maker. -/
theorem parse_ok_or_rejects_twoItems :
    (Grammar.mk SignedSums.description none).build .critical = (.ok true, SignedSums.grammar) ∧
      (∀ term, SignedSums.built.language.term? SignedSums.built.language.root = some term →
        term.flags.has .transient = false ∧ term.flags.has .noNode = false) ∧
      SignedSums.built.language.parse? "x+x" = some ⟨some SignedSums.document, []⟩ ∧
      (∃ children, SignedSums.document = .node .document children ∧
        ∀ child ∈ children, child.height ≤ nestingLimit) ∧
      SignedSums.grammar.treeText "x+x" =
        .ok (SignedSums.built.language.wholeLines 0 SignedSums.document) ∧
      ∀ source threshold, (∃ node, SignedSums.grammar.parse "x+x" source threshold = .ok node) ∨
        ∃ e, SignedSums.grammar.parse "x+x" source threshold = .error e ∧
          (SignedSums.built.reading "x+x" source).Rejects 0 SignedSums.document e := by
  have hroot : ∀ term, SignedSums.built.language.term? SignedSums.built.language.root = some term →
      term.flags.has .transient = false ∧ term.flags.has .noNode = false := by
    intro term hterm
    have hentry : SignedSums.draft.term? SignedSums.sumIndex = some term := by
      rw [← hterm]
      exact Draft.term?_complete.symm
    rw [SignedSums.flags_eq_none (Or.inl rfl) hentry]
    decide
  exact ⟨SignedSums.build_eq, hroot, SignedSums.parse?_eq,
    parse_ok_or_rejects SignedSums.build_eq rfl hroot SignedSums.parse?_eq rfl⟩

end Grammar

end TypedGrammar
