import TypedGrammar.Proofs.Derivation.Basic
import TypedGrammar.Proofs.Draft.Laws
import TypedGrammar.Proofs.Matching.TokenForms
import TypedGrammar.Proofs.OrderedChoice.Symbols
import TypedGrammar.Proofs.Tree.Parts

/-!
# The text of a tree

The tokens of a tree, in order, against the text that was parsed.  Each character of the text is in
one token.  What is not in the text are the tokens of key terms whose text is empty: such a token
takes nothing, but shows the character that stands behind it.
-/

namespace TypedGrammar

open TypedGrammar.Tree

namespace Language

open Matcher

variable {language : Language} {room : ℕ} {shapes : List Shape} {start middle stop : Cursor}
  {trees : List Tree} {text : String} {parse : Parse} {tree : Tree}

/-! ## Blank tokens -/

/-- The kind stands for a key term whose text is empty. -/
def isBlank (language : Language) (kind : TreeKind) : Bool :=
  (language.termFor? kind).any fun term => term.kind = .key ""

/-- The texts of the tokens that are not blank, one after the other. -/
def solidText (language : Language) (tokens : List Token) : String :=
  String.join ((tokens.filter fun token => !language.isBlank token.kind).map Token.text)

@[simp] theorem solidText_nil : language.solidText [] = "" :=
  String.join_nil

@[simp] theorem solidText_append (tokens more : List Token) :
    language.solidText (tokens ++ more) = language.solidText tokens ++ language.solidText more := by
  rw [solidText, List.filter_append, List.map_append, String.join_append]
  rfl

theorem solidText_singleton_of_isBlank {token : Token} (h : language.isBlank token.kind = true) :
    language.solidText [token] = "" := by
  rw [solidText, List.filter_cons_of_neg (by rw [h]; decide)]
  exact String.join_nil

theorem solidText_singleton {token : Token} (h : language.isBlank token.kind = false) :
    language.solidText [token] = token.text := by
  rw [solidText, List.filter_cons_of_pos (by rw [h]; decide), List.filter_nil, List.map_singleton,
    String.join_cons, String.join_nil, String.append_empty]

/-- A token of a term is blank if the text of the term is empty. -/
theorem isBlank_term {index : TermIndex} {term : Term} (h : language.term? index = some term) :
    language.isBlank (.term index) = decide (term.kind = .key "") := by
  show (language.term? index).any _ = _
  rw [h, Option.any_some]

/-- Without empty key terms no token is blank. -/
theorem HasKeyTexts.isBlank_eq_false (h : language.HasKeyTexts) (kind : TreeKind) :
    language.isBlank kind = false := by
  cases kind with
  | document => rfl
  | trivia => rfl
  | term index =>
    cases hterm : language.term? index with
    | none =>
      show (language.term? index).any _ = false
      rw [hterm, Option.any_none]
    | some term =>
      rw [isBlank_term hterm, decide_eq_false_iff_not]
      exact h.kind_ne hterm

/-- A blank token in front adds nothing to the text. -/
theorem solidText_cons_of_isBlank {token : Token} {tokens : List Token}
    (h : language.isBlank token.kind = true) :
    language.solidText (token :: tokens) = language.solidText tokens := by
  rw [← List.singleton_append, solidText_append, solidText_singleton_of_isBlank h,
    String.empty_append]

/-- Any other token in front adds its own text. -/
theorem solidText_cons {token : Token} {tokens : List Token}
    (h : language.isBlank token.kind = false) :
    language.solidText (token :: tokens) = token.text ++ language.solidText tokens := by
  rw [← List.singleton_append, solidText_append, solidText_singleton h]

/-- The whole text is at least as long as that of the tokens that are not blank. -/
theorem utf8ByteSize_solidText_le (tokens : List Token) :
    (language.solidText tokens).utf8ByteSize ≤
      (String.join (tokens.map Token.text)).utf8ByteSize := by
  induction tokens with
  | nil => exact le_rfl
  | cons token rest ih =>
    rw [List.map_cons, String.join_cons, String.utf8ByteSize_append]
    cases hblank : language.isBlank token.kind with
    | true =>
      rw [solidText_cons_of_isBlank hblank]
      omega
    | false =>
      rw [solidText_cons hblank, String.utf8ByteSize_append]
      omega

/-- Blank tokens add nothing to a text exactly if they show nothing. -/
theorem join_eq_solidText_iff {tokens : List Token} :
    String.join (tokens.map Token.text) = language.solidText tokens ↔
      ∀ token ∈ tokens, language.isBlank token.kind = true → token.text = "" := by
  induction tokens with
  | nil => simp
  | cons token rest ih =>
    rw [List.forall_mem_cons, List.map_cons, String.join_cons]
    cases hblank : language.isBlank token.kind with
    | true =>
      rw [solidText_cons_of_isBlank hblank]
      constructor
      · -- There is no room for what a blank token shows.
        intro heq
        have hsize := congrArg String.utf8ByteSize heq
        rw [String.utf8ByteSize_append] at hsize
        have hrest := language.utf8ByteSize_solidText_le rest
        have hzero : token.text.utf8ByteSize = 0 := by omega
        have hempty : token.text = "" := String.utf8ByteSize_eq_zero_iff.mp hzero
        rw [hempty, String.empty_append] at heq
        exact ⟨fun _ => hempty, ih.mp heq⟩
      · rintro ⟨hempty, hblanks⟩
        rw [hempty rfl, String.empty_append, ih.mpr hblanks]
    | false =>
      rw [solidText_cons hblank]
      constructor
      · intro heq
        have hrest := (String.append_right_inj _).mp heq
        exact ⟨fun h => absurd h Bool.false_ne_true, ih.mp hrest⟩
      · rintro ⟨_, hblanks⟩
        rw [ih.mpr hblanks]

/-! ## Spans -/

/-- What is skipped is a token of its own text. -/
theorem spans_skipped (h : start ≤ middle) :
    start.Spans middle (language.solidText (tokensOfAll (skipped start middle))).toList := by
  obtain ⟨taken, htaken⟩ := h
  unfold skipped
  by_cases hlt : start.index < middle.index
  · have htokens : tokensOfAll [.token .trivia (start.between middle)] =
        [⟨.trivia, start.between middle⟩] := rfl
    rwa [if_pos hlt, htokens, solidText_singleton rfl, htaken.between_eq, String.toList_ofList]
  · have hnil : taken = [] := by
      have := htaken.2
      rw [← List.length_eq_zero_iff]
      omega
    rw [if_neg hlt, tokensOfAll, solidText_nil]
    rwa [hnil] at htaken

/-- A token of a term stands where its text does, or is blank and takes nothing. -/
theorem spans_token {index : TermIndex} {term : Term} {token : Matcher String}
    (hterm : language.term? index = some term)
    (htoken : tokenText? language.lexicon term.kind = some token)
    (htext : token.Takes start text stop) :
    start.Spans stop (language.solidText [⟨.term index, text⟩]).toList := by
  by_cases hkind : term.kind = .key ""
  · have hblank : language.isBlank (.term index) = true := by
      rw [isBlank_term hterm, decide_eq_true_iff]
      exact hkind
    rw [solidText_singleton_of_isBlank hblank, eq_of_takes_token htoken htext hkind]
    exact Cursor.spans_nil _
  · have hsolid : language.isBlank (.term index) = false := by
      rw [isBlank_term hterm, decide_eq_false_iff_not]
      exact hkind
    rw [solidText_singleton hsolid]
    exact spans_of_takes_token htoken htext hkind

/-- The trees of a rule have the tokens of its children. -/
theorem tokensOfAll_ruleTrees (index : TermIndex) (term : Term) (children : List Tree) :
    tokensOfAll (ruleTrees index term children) = tokensOfAll children := by
  unfold ruleTrees
  split
  · rfl
  · rw [tokensOfAll, tokensOfAll, List.append_nil, tokens]

/-- **Texts of derivations.**  What is derived from one place to another has the characters between
them as its tokens, blank ones apart. -/
theorem Derives.spans (h : language.Derives room shapes start trees stop) :
    start.Spans stop (language.solidText (tokensOfAll trees)).toList := by
  induction h with
  | done =>
    rw [tokensOfAll, solidText_nil]
    exact Cursor.spans_nil _
  | unfold _ _ ih => exact ih
  | token hterm htoken hskips htext _ ih =>
    rw [tokensOfAll_append, tokensOfAll, tokens, solidText_append, solidText_append,
      String.toList_append, String.toList_append]
    exact (spans_skipped hskips.le).append ((spans_token hterm htoken htext).append ih)
  | rule _ _ _ ihChildren ihRest =>
    rw [tokensOfAll_append, tokensOfAll_ruleTrees, solidText_append, String.toList_append]
    exact ihChildren.append ihRest

/-- The tokens of a tree that are not blank are the text that was parsed. -/
theorem solidText_of_parse? (h : language.parse? text = some parse)
    (htree : parse.tree = some tree) : language.solidText tree.tokens = text := by
  obtain ⟨trees, middle, stop, htrees, hskips, hrest, rfl⟩ := derives_of_parse? h htree
  have hskipped : middle.Spans stop
      (language.solidText (tokensOfAll (skipped middle stop))).toList := spans_skipped hskips.le
  have hspans := htrees.spans.append hskipped
  rw [tokens, tokensOfAll_append, solidText_append, ← String.toList_inj, String.toList_append]
  have htext : text.toList = _ ++ stop.rest := hspans.1
  rw [htext, hrest, List.append_nil]

/-- Where all key terms have texts, the text of the tree is the text that was parsed. -/
theorem HasKeyTexts.text_eq (hkeys : language.HasKeyTexts) (h : language.parse? text = some parse)
    (htree : parse.tree = some tree) : tree.text = text := by
  have hsolid : String.join (tree.tokens.map Token.text) = language.solidText tree.tokens :=
    join_eq_solidText_iff.mpr fun token _ hblank => by
      rw [hkeys.isBlank_eq_false] at hblank
      cases hblank
  rw [text_eq_join, hsolid, solidText_of_parse? h htree]

/-- **Texts of trees.**  The tokens of a tree that are not blank are the text that was parsed.  All
tokens together are the text exactly if the blank ones show nothing. -/
theorem text_eq_iff_of_parse? (h : language.parse? text = some parse)
    (htree : parse.tree = some tree) :
    language.solidText tree.tokens = text ∧
      (tree.text = text ↔
        ∀ token ∈ tree.tokens, language.isBlank token.kind = true → token.text = "") := by
  have hsolid := solidText_of_parse? h htree
  refine ⟨hsolid, ?_⟩
  rw [text_eq_join, ← join_eq_solidText_iff, hsolid]

end Language

/-! ## A blank term

The grammar of one node type, of a key term without a text and a letter behind it. -/

namespace BlankTerm

/-- The node type of the two terms. -/
def node : NodeDeclaration where
  typeName := "A"
  name := "A"
  number := 0
  valueType := .data
  rule := .all [.term "", .term "x"]
  afterthoughts := []
  build _ := .ok .null

/-- The grammar of the node type. -/
def description : GrammarDescription where
  name := "A"
  types := #[node]
  root := 0
  comments := []

/-- The language of the grammar. -/
def language : Language :=
  .ofRule (.sequence [.term firstSymbol, .term secondSymbol])
    [(firstSymbol, ""), (secondSymbol, "x")]

/-- The description is compiled to a grammar of this language. -/
theorem compile_eq : ∃ built, description.compile = .ok built ∧ built.language = language := by
  refine ⟨⟨language, #[some (.declared node.identity node.value), some (.key (.text "") none),
    some (.key (.text "x") none)]⟩, ?_, rfl⟩
  simp [GrammarDescription.compile, Drafting.defineNode, Drafting.defineNodeWithin, description,
    Drafting.declare, Drafting.claim, node, Draft.empty, Draft.pushEntry, Draft.modifyTerm,
    Term.withShape, TermIndex.ofNat?, termLimit, NodeDeclaration.pending, KeyRequest.entry,
    Rule.eval, Rule.evalAll, Rule.term, Rule.textTerm, Rule.keyTerm, Except.map, List.lookup_nil,
    KeyTermTable.lookup, KeyTermTable.get?_push, Draft.complete, Draft.toLanguage, Draft.terms]
  rfl

/-- The token of the blank term shows the letter that stands behind it. -/
def document : Tree :=
  .node .document [.node (.term ruleIndex)
    [.token (.term firstSymbol) "x", .token (.term secondSymbol) "x"]]

/-- There are no symbols, since a text that is empty is none and the letter is a word. -/
theorem lexicon_eq : language.lexicon = ⟨[], [], []⟩ :=
  Language.lexicon_of_texts (by decide +kernel) List.Pairwise.nil (by decide +kernel) rfl

/-- Besides the lexicon, only the terms matter for the tree of a text. -/
theorem parse?_of_lexicon {other : Language} (keyTerms : KeyTermTable)
    (h : other = { language with keyTerms := keyTerms }) (hlexicon : other.lexicon = ⟨[], [], []⟩) :
    other.parse? "x" = some ⟨some document, []⟩ := by
  rw [Language.parse?, Language.matchDocument]
  simp only [hlexicon]
  subst h
  clear hlexicon
  simp only [language, Language.ofRule, List.map]
  with_unfolding_all rfl

/-- A letter is accepted, although it is shown twice. -/
theorem parse?_eq : language.parse? "x" = some ⟨some document, []⟩ :=
  parse?_of_lexicon language.keyTerms rfl lexicon_eq

/-- A tree with a blank token need not have the text that was parsed. -/
theorem text_ne_of_parse? :
    ∃ built parse tree, description.compile = .ok built ∧
      built.language.parse? "x" = some parse ∧ parse.tree = some tree ∧ tree.text ≠ "x" := by
  obtain ⟨built, hcompile, hlanguage⟩ := compile_eq
  refine ⟨built, ⟨some document, []⟩, document, hcompile, ?_, rfl, by decide⟩
  rw [hlanguage, parse?_eq]

end BlankTerm

/-- The tokens that are not blank are the text; the blank one is not empty. -/
theorem Language.text_eq_iff_of_parse?_blankTerm :
    BlankTerm.language.parse? "x" = some ⟨some BlankTerm.document, []⟩ ∧
      BlankTerm.language.solidText BlankTerm.document.tokens = "x" ∧
      (BlankTerm.document.text = "x" ↔
        ∀ token ∈ BlankTerm.document.tokens,
          BlankTerm.language.isBlank token.kind = true → token.text = "") :=
  ⟨BlankTerm.parse?_eq, Language.text_eq_iff_of_parse? BlankTerm.parse?_eq rfl⟩

end TypedGrammar
