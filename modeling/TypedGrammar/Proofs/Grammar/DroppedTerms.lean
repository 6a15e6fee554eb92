import TypedGrammar.Proofs.Grammar.Creations
import TypedGrammar.Proofs.Node.Layers

/-!
# Dropped terms

Of the tree of a text that is parsed, every token and every rule is made into one node, which is
handed to the rule above in the order of the text, unless it is dropped: tokens without nodes or of
punctuation, rules without nodes, and all that is below these.  A rule that is flagged as
punctuation is not dropped.
-/

namespace TypedGrammar

open TypedGrammar.Tree

/-- A node of a declared type is made by the type, or it is one of the nodes below. -/
theorem Maker.declared_of_make {maker : Maker} {occurrence : Occurrence} {node : Node}
    {owner : DeclaredNode} (h : maker.make occurrence = .ok node)
    (hkind : node.kind = .declared owner) :
    (∃ value, maker = .declared owner value) ∨ node ∈ occurrence.nodes := by
  cases maker with
  | sequence | list _ | key _ _ =>
    obtain rfl := Except.ok.inj h
    cases hkind
  | optional =>
    obtain rfl := Except.ok.inj h
    unfold Occurrence.toOptional Node.ofOptional at hkind
    split at hkind <;> cases hkind
  | brace =>
    obtain rfl := Except.ok.inj h
    rw [Occurrence.toBrace] at hkind
    split at hkind
    · split at hkind <;> cases hkind
    · cases hkind
  | first =>
    rw [make] at h
    split at h
    · next first rest hnodes =>
      obtain rfl := Except.ok.inj h
      exact Or.inr (hnodes ▸ List.mem_cons_self)
    · cases h
  | constant type =>
    rw [make] at h
    split at h
    · obtain ⟨value, _, rfl⟩ := map_eq_ok h
      cases hkind
    · cases h
  | identifier symbol =>
    obtain ⟨name, _, rfl⟩ := map_eq_ok h
    cases hkind
  | literal read =>
    obtain ⟨⟨value, raw⟩, _, rfl⟩ := map_eq_ok h
    cases hkind
  | declared owner' value =>
    obtain ⟨result, _, rfl⟩ := map_eq_ok h
    injection hkind with howner
    exact Or.inl ⟨value, howner ▸ rfl⟩

namespace Reading

variable {reading : Reading} {tree : Tree} {trees : List Tree} {kind : TreeKind}
  {depth offset : ℕ} {node : Node} {owner : DeclaredNode}

/-- What the flags of terms say that is made into nodes: neither tokens nor rules of punctuation. -/
def keeps (reading : Reading) (tree : Tree) : Bool :=
  !reading.flagged tree.kind .punctuation && reading.makes tree

/-- Makers are called for what is to be kept and not hidden, and for nothing else. -/
def CallsForKept (reading : Reading) (tree : Tree) (makings : List Making) : Prop :=
  ∀ path, (∃ making ∈ makings, making.path = path) ↔
    ∃ sub, tree.at? path = some sub ∧ ¬ reading.IsHidden tree path ∧ reading.keeps sub = true

/-- No rule that is shown is of punctuation. -/
def HidesPunctuation (reading : Reading) (tree : Tree) : Prop :=
  ∀ path kind children, tree.at? path = some (.node kind children) →
    ¬ reading.IsHidden tree path → reading.flagged kind .noNode = false →
      reading.flagged kind .punctuation = false

/-- Only rules of punctuation are made into nodes although they are to be dropped. -/
theorem IsAccount.callsForKept_iff {makings : List Making} (h : reading.IsAccount tree makings) :
    reading.CallsForKept tree makings ↔ reading.HidesPunctuation tree := by
  constructor
  · intro hall path kind children hat hshown hnode
    have hmakes : reading.makes (.node kind children) = true := by
      rw [makes, hnode]
      rfl
    obtain ⟨sub, hsub, _, hkept⟩ :=
      (hall path).mp ((h.called path).mpr ⟨_, hat, hshown, hmakes⟩)
    obtain rfl := Option.some.inj (hat.symm.trans hsub)
    rw [keeps, Bool.and_eq_true, Bool.not_eq_true'] at hkept
    exact hkept.1
  · intro hnone path
    rw [h.called]
    refine exists_congr fun sub => and_congr_right fun hat => and_congr_right fun hshown => ?_
    rw [keeps, Bool.and_eq_true, Bool.not_eq_true']
    refine ⟨fun hmakes => ⟨?_, hmakes⟩, And.right⟩
    cases sub with
    | token kind text =>
      rw [makes, Bool.and_eq_true, Bool.and_eq_true, Bool.not_eq_true'] at hmakes
      exact hmakes.1.1
    | node kind children =>
      rw [makes, Bool.not_eq_true'] at hmakes
      exact hnone path kind children hat hshown hmakes

/-- A node of a declared type comes from a derived tree with a maker of this type. -/
theorem exists_declared_of_node (hderived : reading.language.IsDerived tree)
    (h : reading.node depth offset tree = .ok (some node)) (hkind : node.kind = .declared owner) :
    ∃ sub value, reading.language.IsDerived sub ∧
      reading.maker? sub.kind = some (.declared owner value) := by
  induction tree generalizing depth offset node with
  | token kind text =>
    obtain ⟨occurrence, hands, hmake⟩ := exists_hands_of_node h
    cases hands with
    | token _ _ _ hmaker =>
      rw [Tree.kind, hmaker] at hmake
      rcases Maker.declared_of_make hmake hkind with ⟨value, rfl⟩ | hnode
      · exact ⟨_, value, hderived, hmaker⟩
      · exact absurd hnode List.not_mem_nil
  | node kind children ih =>
    obtain ⟨occurrence, hands, hmake⟩ := exists_hands_of_node h
    cases hands with
    | @rule _ _ _ parts _ _ _ hparts =>
      rcases Maker.declared_of_make hmake hkind with ⟨value, hmaker⟩ | hnode
      · -- The rule itself has the maker of the type.
        refine ⟨_, value, hderived, ?_⟩
        cases hfound : reading.maker? kind with
        | none => rw [Tree.kind, hfound] at hmaker; cases hmaker
        | some maker =>
          rw [Tree.kind, hfound] at hmaker
          exact hfound.trans (congrArg some hmaker)
      · -- The node was handed up from below.
        obtain ⟨part, hpart, hmade⟩ := Occurrence.mem_nodes.mp hnode
        obtain ⟨place, hplace, _, hread⟩ := exists_of_forall₂_right (forall₂_of_parts hparts) hpart
        obtain ⟨⟨front, rest, rfl, _⟩, _⟩ := Tree.mem_placedParts_iff.mp hplace
        rw [hmade] at hread
        have hmem : place.2 ∈ front ++ place.2 :: rest :=
          List.mem_append_right _ List.mem_cons_self
        cases hderived with
        | node _ _ hchildren =>
          exact ih place.2 hmem (hchildren.isDerived place.2 hmem) hread hkind

/-- The node of a document is that of the first rule in it. -/
theorem exists_rule_of_document (h : reading.document (.node kind trees) = .ok (some node)) :
    ∃ front inner children behind, trees = front ++ .node inner children :: behind ∧
      (∀ tree ∈ front, ∃ kind text, tree = .token kind text) ∧
      reading.node 0 (byteLengthOfAll front) (.node inner children) = .ok (some node) := by
  rw [document] at h
  split at h
  · next offset top hfirst =>
    obtain ⟨front, inner, children, behind, hsplit, hfront, hoffset, rfl⟩ :=
      exists_of_firstNode? hfirst
    rw [Nat.zero_add] at hoffset
    exact ⟨front, inner, children, behind, hsplit, hfront, hoffset ▸ h⟩
  · cases h

end Reading

namespace Grammar

variable {grammar : Grammar} {built : BuiltGrammar} {type : NodeDeclaration} {text source : String}
  {threshold : Severity} {node : Node}

/-- A text is parsed only if its tree is read into a node of the root type. -/
theorem document_of_parse (hbuilt : grammar.built = some built)
    (h : grammar.parse text source threshold = .ok node) :
    ∃ parse tree, built.language.parse? text = some parse ∧ parse.tree = some tree ∧
      (built.reading text source).document tree = .ok (some node) ∧ grammar.isRoot node = true := by
  have huse : grammar.use = .ok built := by
    rw [use, hbuilt]
  rw [Grammar.parse, huse, ok_bind] at h
  cases hparse : built.language.parse? text with
  | none =>
    simp only [hparse] at h
    cases h
  | some parse =>
    simp only [hparse] at h
    cases htree : parse.tree with
    | none =>
      simp only [htree] at h
      cases h
    | some tree =>
      simp only [htree] at h
      split at h
      · cases h
      · rw [rootNode] at h
        obtain ⟨made, hread, h⟩ := bind_eq_ok h
        refine ⟨parse, tree, rfl, htree, ?_⟩
        cases made with
        | none => cases h
        | some found =>
          simp only at h
          split at h
          · next hroot =>
            obtain rfl := Except.ok.inj h
            exact ⟨hread, hroot⟩
          · cases h

/-- If only the maker of the root makes nodes of the root type, then what is read into such a node
has the root in it. -/
theorem exists_root_of_node {tree : Tree} {depth offset : ℕ} {owner : DeclaredNode}
    (honly : ∀ index value, built.makers[index]? = some (some (.declared owner value)) →
      index = built.language.root.value)
    (hderived : built.language.IsDerived tree)
    (hread : (built.reading text source).node depth offset tree = .ok (some node))
    (hkind : node.kind = .declared owner) :
    ∃ sub, built.language.IsDerived sub ∧ sub.kind = .term built.language.root := by
  obtain ⟨sub, value, hsub, hmaker⟩ := Reading.exists_declared_of_node hderived hread hkind
  refine ⟨sub, hsub, ?_⟩
  cases hsubKind : sub.kind with
  | term index =>
    rw [hsubKind] at hmaker
    have hindex := honly index.value value (Option.join_eq_some_iff.mp hmaker)
    exact congrArg TreeKind.term ((TermIndex.mk.injEq ..).mpr hindex)
  | _ =>
    rw [hsubKind] at hmaker
    cases hmaker

/-- If only the maker of the root makes nodes of the root type, then the tree of a text that is
parsed is the rule of the root, with nothing but trivia behind it. -/
theorem root_of_document {parse : Parse} {tree : Tree}
    (htype : grammar.description.types[grammar.description.root]? = some type)
    (honly : ∀ index value, built.makers[index]? = some (some (.declared type.identity value)) →
      index = built.language.root.value)
    (hparse : built.language.parse? text = some parse) (htree : parse.tree = some tree)
    (hread : (built.reading text source).document tree = .ok (some node))
    (hroot : grammar.isRoot node = true) :
    ∃ children behind,
      tree = .node .document (.node (.term built.language.root) children :: behind) ∧
        ∀ tree ∈ behind, tree.isTrivia = true := by
  obtain ⟨trees, middle, stop, htrees, _, _, rfl⟩ := Language.derives_of_parse? hparse htree
  obtain ⟨front, kind, children, rest, hsplit, _, hnode⟩ := Reading.exists_rule_of_document hread
  have hmem : .node kind children ∈ trees ++ skipped middle stop := by
    rw [hsplit]
    exact List.mem_append_right _ List.mem_cons_self
  have hkind : node.kind = .declared type.identity := by
    rw [isRoot, htype] at hroot
    exact of_decide_eq_true hroot
  obtain ⟨sub, hsub, hindex⟩ :=
    exists_root_of_node honly (Language.isDerived_of_parse? hparse htree _ hmem) hnode hkind
  cases hsub with
  | trivia => cases hindex
  | @token index term text hterm hterminal =>
    obtain rfl := TreeKind.term.inj hindex
    rcases htrees.of_term with
      ⟨_, _, text', _, _, _, _, rfl⟩ | ⟨term', shape, below, inner, _, hdef, _, _⟩
    · -- If the root has no rule, then the document has no node.
      rw [List.append_assoc] at hmem
      rcases List.mem_append.mp hmem with hmem | hmem
      · obtain ⟨text, htoken⟩ := mem_skipped hmem
        cases htoken
      · rcases List.mem_cons.mp hmem with htoken | hmem
        · cases htoken
        · obtain ⟨text, htoken⟩ := mem_skipped hmem
          cases htoken
    · obtain rfl := Option.some.inj (hterm.symm.trans hdef.1)
      rw [Term.isTerminal, hdef.2] at hterminal
      cases hterminal
  | @node index term shape children' _ _ _ hdef hshown _ =>
    obtain rfl := TreeKind.term.inj hindex
    obtain ⟨_, below, _, _, _, _, hdocument⟩ :=
      Language.document_of_parse? hdef hshown hparse htree
    refine ⟨below, _, hdocument, fun tree htree => ?_⟩
    obtain ⟨text, rfl⟩ := mem_skipped htree
    rfl

/-- **Dropped terms.**  When a text is parsed, then reading begins at the first rule of its tree,
and the calls of makers account for all of what is below: one node for each token and each rule that
is to be made into a node and not hidden below a rule without nodes, handed to the rule above in the
order of the text, and none for anything else.  The last one is the result.  If only the maker of
the root makes nodes of the root type, then that first rule is the root, and there is only trivia
beside it.  That no maker is called for terms of punctuation holds exactly if no rule that is shown
is flagged as punctuation. -/
theorem account_of_parse (hbuilt : grammar.built = some built)
    (htype : grammar.description.types[grammar.description.root]? = some type)
    (h : grammar.parse text source threshold = .ok node) :
    ∃ parse front kind children behind makings,
      built.language.parse? text = some parse ∧
      parse.tree = some (.node .document (front ++ .node kind children :: behind)) ∧
      (∀ tree ∈ front, ∃ kind text, tree = .token kind text) ∧
      (built.reading text source).record 0 (byteLengthOfAll front) (.node kind children) =
        ⟨makings, .ok (some node)⟩ ∧
      (built.reading text source).IsAccount (.node kind children) makings ∧
      (∃ making ∈ makings, making.path = [] ∧ making.result = .ok node) ∧
      ((∀ index value, built.makers[index]? = some (some (.declared type.identity value)) →
          index = built.language.root.value) →
        front = [] ∧ kind = .term built.language.root ∧ ∀ tree ∈ behind, tree.isTrivia = true) ∧
      ((built.reading text source).CallsForKept (.node kind children) makings ↔
        (built.reading text source).HidesPunctuation (.node kind children)) := by
  obtain ⟨parse, tree, hparse, htree, hread, hroot⟩ := document_of_parse hbuilt h
  obtain ⟨trees, middle, stop, htrees, _, _, rfl⟩ := Language.derives_of_parse? hparse htree
  obtain ⟨front, kind, children, behind, hsplit, hfront, hnode⟩ :=
    Reading.exists_rule_of_document hread
  have hmem : .node kind children ∈ trees ++ skipped middle stop := by
    rw [hsplit]
    exact List.mem_append_right _ List.mem_cons_self
  have hnames : built.language.Names (.node kind children) := by
    rcases List.mem_append.mp hmem with hmem | hmem
    · exact htrees.names _ hmem
    · obtain ⟨text, htoken⟩ := mem_skipped hmem
      cases htoken
  have hrecord := (Reading.result_record (built.reading text source) 0 (byteLengthOfAll front)
    (.node kind children)).trans hnode
  have haccount := Reading.isAccount_record hnames hrecord
  refine ⟨parse, front, kind, children, behind, _, hparse, htree.trans (by rw [hsplit]), hfront,
    congrArg (Recorded.mk _) hrecord, haccount, (Reading.made_eq_some_iff hrecord).mp rfl,
    fun honly => ?_, haccount.callsForKept_iff⟩
  obtain ⟨children', behind', hdocument, htrivia⟩ :=
    root_of_document htype honly hparse htree hread hroot
  injection hdocument with _ hdocument
  rw [hsplit] at hdocument
  -- The first tree is a rule, so no token stands before it.
  rcases List.append_eq_cons_iff.mp hdocument with ⟨rfl, hdocument⟩ | ⟨others, rfl, _⟩
  · obtain ⟨hsame, rfl⟩ := List.cons.inj hdocument
    injection hsame with hkind
    exact ⟨rfl, hkind, htrivia⟩
  · obtain ⟨_, _, htoken⟩ := hfront _ List.mem_cons_self
    cases htoken

end Grammar

/-! ### A rule of punctuation

A text of one word, whose node type is flagged as punctuation once its rule is known. -/

namespace PunctuatedRule

/-- The text is the first term. -/
def textIndex : TermIndex :=
  .ofNat 0

/-- The word follows the text. -/
def wordIndex : TermIndex :=
  .ofNat 1

/-- The letter is the last term. -/
def letterIndex : TermIndex :=
  .ofNat 2

/-- The request for the letter. -/
def letter : KeyRequest where
  name := "x"
  text := "x"
  value := .text "x"
  flags := .none
  precedence := none

/-- The node type of a word, which is flagged as punctuation afterwards. -/
def word : NodeDeclaration where
  typeName := "Word"
  name := "Word"
  number := 1
  valueType := .unit
  rule := .key letter
  afterthoughts := [.setFlags (.ofList [.punctuation]) true]
  build _ := .ok .null

/-- The node type of a text. -/
def text : NodeDeclaration where
  typeName := "Text"
  name := "Text"
  number := 0
  valueType := .unit
  rule := .node 1
  afterthoughts := []
  build _ := .ok .null

/-- The grammar of texts of one word. -/
def description : GrammarDescription where
  name := "Dropped"
  types := #[text, word]
  root := 0
  comments := []

/-- The three entries, in the order in which they are registered. -/
def entries : Array Entry := #[
  { text.pending with kind := .rule (some (.term wordIndex)) },
  { word.pending with
    kind := .rule (some (.term letterIndex))
    flags := .ofList [.punctuation] },
  letter.entry]

/-- The draft once the letter is registered and the word is flagged. -/
def draft : Draft where
  entries
  keyTerms := KeyTermTable.empty.push ⟨letter, letterIndex⟩
  declared := [("Word", wordIndex), ("Text", textIndex)]
  claims := [("Word", "Word"), ("Text", "Text")]
  optionals := []
  groups := []
  lists := []
  braces := []

/-- What the grammar is compiled to. -/
def built : BuiltGrammar :=
  draft.complete description.name textIndex description.comments

/-- The grammar once it is built. -/
def grammar : Grammar :=
  ⟨description, some built⟩

/-- Defining the text defines the word, and registers the letter. -/
theorem runOn_defineNode :
    (Drafting.defineNode description.types description.root).runOn .empty =
      (.ok textIndex, draft) := by
  simp [Drafting.defineNode, Drafting.defineNodeWithin, description, Drafting.declare,
    Drafting.claim, text, word, letter, Draft.empty, Draft.pushEntry, Draft.modifyTerm,
    Draft.term?, Draft.entry?, Term.withShape, TermIndex.ofNat?, termLimit,
    NodeDeclaration.pending, KeyRequest.entry, Rule.eval, Afterthought.run, Except.map,
    List.lookup_cons, List.lookup_nil, KeyTermTable.lookup]
  exact ⟨rfl, rfl⟩

/-- The grammar compiles. -/
theorem compile_eq : description.compile = .ok built := by
  rw [GrammarDescription.compile, runOn_defineNode]
  rfl

/-- It is built even if critical messages count. -/
theorem build_eq : (Grammar.mk description none).build .critical = (.ok true, grammar) :=
  Grammar.build_of_compile compile_eq (by decide +kernel)

/-- The grammar has no symbols, reserved words or comments. -/
theorem lexicon_eq : built.language.lexicon = ⟨[], [], []⟩ :=
  Language.lexicon_of_texts (by decide +kernel) List.Pairwise.nil (by decide +kernel) rfl

/-- The tree of the text, with the word below it. -/
def tree : Tree :=
  .node (.term textIndex) [.node (.term wordIndex) [.token (.term letterIndex) "x"]]

/-- Besides the lexicon, only the terms matter for the tree of a text. -/
theorem parse?_of_lexicon {language : Language} (keyTerms : KeyTermTable)
    (h : language = ⟨"Dropped", entries.map Entry.toTerm, keyTerms, textIndex, []⟩)
    (hlexicon : language.lexicon = ⟨[], [], []⟩) :
    language.parse? "x" = some ⟨some (.node .document [tree]), []⟩ := by
  rw [Language.parse?, Language.matchDocument]
  simp only [hlexicon]
  subst h
  clear hlexicon
  with_unfolding_all rfl

/-- A letter is accepted as a word. -/
theorem parse?_eq : built.language.parse? "x" = some ⟨some (.node .document [tree]), []⟩ :=
  parse?_of_lexicon draft.keyTerms rfl lexicon_eq

/-- The text is read with a source of its own. -/
def reading : Reading :=
  built.reading "x" "s"

/-- All nodes of the text are at its start. -/
def location : Location :=
  ⟨0, 0, 0, "s"⟩

/-- The node of the text: below it stands the one of the word. -/
def node : Node :=
  .declared location text.identity .unit
    [.declared location word.identity .unit
      [.key location (.text "x") "x" "x" .none none]]

/-- The tree of the document is read as the node of the text. -/
theorem document_eq : reading.document (.node .document [tree]) = .ok (some node) := by
  with_unfolding_all rfl

/-- The text is parsed into this node. -/
theorem parse_eq : grammar.parse "x" "s" .error = .ok node := by
  rw [Grammar.parse_eq_rootNode rfl parse?_eq rfl, Grammar.rootNode]
  show reading.document (.node .document [tree]) >>= _ = _
  rw [document_eq]
  rfl

/-- The makers are called from the letter up to the text. -/
theorem map_path_eq : (reading.record 0 0 tree).makings.map Making.path = [[0, 0], [0], []] := by
  with_unfolding_all rfl

/-- The word is a rule of punctuation. -/
theorem flagged_word : reading.flagged (.term wordIndex) .punctuation = true := by
  with_unfolding_all rfl

/-- Only the text makes nodes of the root type. -/
theorem index_of_maker {index : ℕ} {value : Contents → Except Error Value}
    (h : built.makers[index]? = some (some (.declared text.identity value))) :
    index = built.language.root.value := by
  have hmakers : built.makers =
      #[some (.declared text.identity text.value), some (.declared word.identity word.value),
        some (.key (.text "x") none)] := by
    with_unfolding_all rfl
  rw [hmakers] at h
  match index with
  | 0 => rfl
  | 1 =>
    injection h with h
    injection h with h
    injection h with howner
    exact absurd howner (by decide)
  | 2 => cases h
  | _ + 3 => cases h

/-- The maker of the word is called, although it is of punctuation. -/
theorem not_keeps :
    (Grammar.mk description none).build .critical = (.ok true, grammar) ∧
      built.language.parse? "x" = some ⟨some (.node .document [tree]), []⟩ ∧
      grammar.parse "x" "s" .error = .ok node ∧
      reading.record 0 0 tree = ⟨(reading.record 0 0 tree).makings, .ok (some node)⟩ ∧
      ¬ reading.CallsForKept tree (reading.record 0 0 tree).makings := by
  refine ⟨build_eq, parse?_eq, parse_eq, ?_, fun hall => ?_⟩
  · exact congrArg (Recorded.mk _) ((Reading.result_record reading 0 0 tree).trans document_eq)
  · have hpath : [0] ∈ (reading.record 0 0 tree).makings.map Making.path := by
      rw [map_path_eq]
      decide
    obtain ⟨sub, hat, _, hkept⟩ := (hall [0]).mp (List.mem_map.mp hpath)
    obtain rfl := Option.some.inj hat
    rw [Reading.keeps, Tree.kind, flagged_word] at hkept
    cases hkept

end PunctuatedRule

/-- The text of one word is accounted for from its root on. -/
theorem Grammar.account_of_parse_punctuatedRule :
    PunctuatedRule.grammar.parse "x" "s" .error = .ok PunctuatedRule.node ∧
      ∃ makings, PunctuatedRule.reading.record 0 0 PunctuatedRule.tree =
          ⟨makings, .ok (some PunctuatedRule.node)⟩ ∧
        PunctuatedRule.reading.IsAccount PunctuatedRule.tree makings ∧
        ∃ making ∈ makings, making.path = [] ∧ making.result = .ok PunctuatedRule.node := by
  refine ⟨PunctuatedRule.parse_eq, ?_⟩
  obtain ⟨parse, front, kind, children, behind, makings, hparse, htree, _, hrecord, haccount, hlast,
    hroot, _⟩ := Grammar.account_of_parse rfl rfl PunctuatedRule.parse_eq
  obtain ⟨rfl, _, _⟩ := hroot fun _ _ => PunctuatedRule.index_of_maker
  obtain rfl := Option.some.inj (PunctuatedRule.parse?_eq.symm.trans hparse)
  -- The first rule is the tree of the text.
  obtain ⟨_, hdocument⟩ := Tree.node.inj (Option.some.inj htree)
  obtain ⟨hsame, _⟩ := List.cons.inj hdocument
  rw [← hsame] at hrecord haccount
  exact ⟨makings, hrecord, haccount, hlast⟩

end TypedGrammar
