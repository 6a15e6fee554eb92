import TypedGrammar.Proofs.Draft.Runs
import TypedGrammar.Proofs.Diagnosis.Messages

/-!
# Built grammars

What a grammar knows of its description once it is built: the language has nothing critical, and
the root of the language is the root of the description, with its shape and its maker.
-/

namespace TypedGrammar

open Drafting

namespace GrammarDescription

variable {description : GrammarDescription} {built : BuiltGrammar}

/-- A description is compiled by defining its root. -/
theorem compile_ok (h : description.compile = .ok built) :
    ∃ type index draft, description.types[description.root]? = some type ∧
      (defineNode description.types description.root).runOn .empty = (.ok index, draft) ∧
        built = draft.complete description.name index description.comments := by
  unfold compile at h
  split at h
  · next index draft hrun =>
    cases htype : description.types[description.root]? with
    | none =>
      rw [defineNode, defineNodeWithin, htype] at hrun
      cases hrun
    | some type => exact ⟨type, index, draft, rfl, hrun, (Except.ok.inj h).symm⟩
  · cases h

end GrammarDescription

namespace Draft

variable {draft : Draft} {name : String} {root index : TermIndex} {comments : List Comment}
  {entry : Entry}

/-- The terms of a language are those of the entries of its draft. -/
theorem term?_complete :
    (draft.complete name root comments).language.term? index = draft.term? index := by
  show (draft.entries.map Entry.toTerm)[index.value]? = _
  rw [Array.getElem?_map]
  rfl

/-- A term of the language is made of its entry. -/
theorem term?_of_entry (h : draft.entries[index.value]? = some entry) :
    (draft.complete name root comments).language.term? index = some entry.toTerm := by
  rw [term?_complete, term?, entry?, h]
  rfl

/-- The makers of a grammar are those of the entries of its draft. -/
theorem makers_of_entry (h : draft.entries[index.value]? = some entry) :
    (draft.complete name root comments).makers[index.value]? = some entry.maker := by
  show (draft.entries.map Entry.maker)[index.value]? = _
  rw [Array.getElem?_map, h]
  rfl

end Draft

namespace Grammar

variable {description : GrammarDescription} {grammar : Grammar} {built : BuiltGrammar}
  {threshold : Severity}

/-- A critical message reaches every threshold. -/
theorem isUncritical_of_anyReaches {language : Language}
    (h : Diagnostic.anyReaches threshold language.diagnose = false) : language.IsUncritical := by
  intro message hmessage hcritical
  have hreaches := List.any_eq_false.mp h message hmessage
  rw [Severity.reaches, hcritical] at hreaches
  exact hreaches (by simp)

/-- A grammar is built from what its description is compiled to, which has nothing critical. -/
theorem build_ok (h : (Grammar.mk description none).build threshold = (.ok true, grammar)) :
    ∃ built, description.compile = .ok built ∧ built.language.IsUncritical ∧
      grammar = ⟨description, some built⟩ := by
  unfold build at h
  rw [if_neg (by simp [isBuilt])] at h
  simp only at h
  split at h
  · cases h
  · next built hcompile =>
    split at h
    · cases h
    · next hreaches =>
      obtain ⟨_, rfl⟩ := Prod.mk.inj h
      exact ⟨built, hcompile, isUncritical_of_anyReaches (Bool.eq_false_iff.mpr hreaches), rfl⟩

/-- A description of a language about which there are no messages is built. -/
theorem build_of_compile (h : description.compile = .ok built)
    (hdiagnose : built.language.diagnose = []) :
    (Grammar.mk description none).build threshold = (.ok true, ⟨description, some built⟩) := by
  unfold build
  rw [if_neg (by simp [isBuilt])]
  simp only
  rw [h]
  simp only
  rw [hdiagnose, if_neg (by simp [Diagnostic.anyReaches])]

end Grammar

/-- **The root of a language.**  It is a rule with a shape, and its nodes are made as the root of
the description says. -/
theorem GrammarDescription.root_of_compile {description : GrammarDescription} {built : BuiltGrammar}
    (h : description.compile = .ok built) :
    ∃ type term shape, description.types[description.root]? = some type ∧
      built.language.Defines built.language.root term shape ∧
      built.makers[built.language.root.value]? =
        some (some (.declared type.identity type.value)) := by
  obtain ⟨type, index, draft, htype, hrun, rfl⟩ := compile_ok h
  -- Which declarations are told apart does not matter for the root.
  have hfamily : TellsFamily ∅ description.types := fun _ _ _ _ _ hmem =>
    absurd hmem (Set.notMem_empty _)
  obtain ⟨_, _, shape, _, _, _, entry, hentry, hstays⟩ := root_of_defineNode hfamily htype hrun
  refine ⟨type, entry.toTerm, shape, htype, ⟨Draft.term?_of_entry hentry, hstays.kind_eq⟩, ?_⟩
  have hmaker : (draft.complete description.name index description.comments).makers[index.value]? =
      some entry.maker := Draft.makers_of_entry hentry
  rwa [hstays.maker_eq] at hmaker

/-! ## Signed sums

What grammars do is shown by one of items with signs: items follow each other with an operator
between them, and the symbol of the operator may also stand before an item.  Before an item it is
worth zero, between items negative zero. -/

namespace SignedSums

/-- The number of the root. -/
def sumIndex : TermIndex :=
  .ofNat 0

/-- The number of the items. -/
def itemIndex : TermIndex :=
  .ofNat 1

/-- The number of the symbol. -/
def signIndex : TermIndex :=
  .ofNat 2

/-- The number of the letter. -/
def letterIndex : TermIndex :=
  .ofNat 3

/-- The number of the operator. -/
def plusIndex : TermIndex :=
  .ofNat 4

/-- The symbol as a sign. -/
def sign : KeyRequest where
  name := "+"
  text := "+"
  value := .float64 ⟨0⟩
  flags := .ofList [.operator]
  precedence := some ⟨1, .left⟩

/-- The request for the letter. -/
def letter : KeyRequest where
  name := "x"
  text := "x"
  value := .text "x"
  flags := .none
  precedence := none

/-- The symbol as an operator; all bits of its value but the one of the sign are zero. -/
def plus : OperatorDeclaration where
  typeName := "Plus"
  name := "Plus"
  operators := [⟨"+", .float64 ⟨0x8000000000000000⟩, "+", ⟨1, .left⟩⟩]

/-- The node type of an item, which a sign may stand before. -/
def item : NodeDeclaration where
  typeName := "Item"
  name := "Item"
  number := 1
  valueType := .unit
  rule := .followedBy (.orEmpty (.key sign)) (.key letter)
  afterthoughts := []
  build _ := .ok .null

/-- The node type of a sum. -/
def sum : NodeDeclaration where
  typeName := "Sum"
  name := "Sum"
  number := 0
  valueType := .unit
  rule := .followedBy (.node 1) (.star (.followedBy (.operator plus) (.node 1)))
  afterthoughts := []
  build _ := .ok .null

/-- The grammar of sums. -/
def description : GrammarDescription where
  name := "Sums"
  types := #[sum, item]
  root := 0
  comments := []

/-- The entries of the terms, by their numbers. -/
def entries : Array Entry := #[
  { sum.pending with
    kind := .rule (some (.sequence [.term itemIndex,
      .repeated (.sequence [.term plusIndex, .term itemIndex]) ⟨true, false⟩])) },
  { item.pending with
    kind := .rule (some (.sequence [.choice [.term signIndex, .empty], .term letterIndex])) },
  sign.entry,
  letter.entry,
  { name := "Plus", kind := .rule (some (.term signIndex)), flags := .ofList [.transient] }]

/-- The draft once everything is registered. -/
def draft : Draft where
  entries
  keyTerms := (KeyTermTable.empty.push ⟨sign, signIndex⟩).push ⟨letter, letterIndex⟩
  declared := [("Plus", plusIndex), ("Item", itemIndex), ("Sum", sumIndex)]
  claims := [("Plus", "Plus"), ("Item", "Item"), ("Sum", "Sum")]
  optionals := []
  groups := []
  lists := []
  braces := []

/-- What the grammar is compiled to. -/
def built : BuiltGrammar :=
  draft.complete description.name sumIndex description.comments

/-- The grammar once it is built. -/
def grammar : Grammar :=
  ⟨description, some built⟩

/-- The two zeros are equal, although their bits are not. -/
theorem zeros_equal : (Value.float64 ⟨0⟩).equal (.float64 ⟨0x8000000000000000⟩) = true := by
  decide

/-- The operator is served by the key term of the sign, as the two zeros are equal. -/
theorem runOn_defineNode :
    (defineNode description.types description.root).runOn .empty = (.ok sumIndex, draft) := by
  simp [defineNode, defineNodeWithin, description, declare, claim, sum, item, plus, sign, letter,
    Draft.empty, Draft.pushEntry, Draft.modifyTerm, Term.withShape, TermIndex.ofNat?, termLimit,
    NodeDeclaration.pending, KeyRequest.entry, Rule.eval, operator, choiceOf, Except.map,
    List.lookup_cons, List.lookup_nil, KeyTermTable.lookup, KeyTermTable.get?_push,
    KeyRequest.agrees, zeros_equal]
  exact ⟨rfl, rfl⟩

/-- The grammar compiles. -/
theorem compile_eq : description.compile = .ok built := by
  rw [GrammarDescription.compile, runOn_defineNode]
  rfl

/-- Sums and items make nodes of their own. -/
theorem flags_eq_none {index : TermIndex} {term : Term}
    (hindex : index = sumIndex ∨ index = itemIndex)
    (h : draft.term? index = some term) : term.flags = .none := by
  have hsum : ∃ t, draft.term? sumIndex = some t ∧ t.flags = .none :=
    ⟨_, by with_unfolding_all rfl, rfl⟩
  have hitem : ∃ t, draft.term? itemIndex = some t ∧ t.flags = .none :=
    ⟨_, by with_unfolding_all rfl, rfl⟩
  rcases hindex with rfl | rfl
  · obtain ⟨t, ht, hflags⟩ := hsum
    rwa [← Option.some.inj (ht.symm.trans h)]
  · obtain ⟨t, ht, hflags⟩ := hitem
    rwa [← Option.some.inj (ht.symm.trans h)]

/-- Nothing is wrong with this grammar. -/
theorem diagnose_eq : built.language.diagnose = [] := by
  decide +kernel

/-- It is built even if critical messages count. -/
theorem build_eq : (Grammar.mk description none).build .critical = (.ok true, grammar) :=
  Grammar.build_of_compile compile_eq diagnose_eq

/-- The sign is the only symbol; no words are reserved, and there are no comments. -/
theorem lexicon_eq : built.language.lexicon = ⟨["+"], [], []⟩ :=
  Language.lexicon_of_texts (by decide +kernel) (List.pairwise_singleton _ _) (by decide +kernel) rfl

/-- The tree of an item without a sign. -/
def itemTree : Tree :=
  .node (.term itemIndex) [.token (.term letterIndex) "x"]

/-- The trees below the root for two items. -/
def twoItems : List Tree :=
  [itemTree, .token (.term signIndex) "+", itemTree]

/-- The tree of the text. -/
def document : Tree :=
  .node .document [.node (.term sumIndex) twoItems]

/-- Besides the lexicon, only the terms matter for the tree of a text. -/
theorem parse?_of_lexicon {language : Language} (keyTerms : KeyTermTable)
    (h : language = ⟨"Sums", entries.map Entry.toTerm, keyTerms, sumIndex, []⟩)
    (hlexicon : language.lexicon = ⟨["+"], [], []⟩) :
    language.parse? "x+x" = some ⟨some document, []⟩ := by
  rw [Language.parse?, Language.matchDocument]
  simp only [hlexicon]
  subst h
  clear hlexicon
  with_unfolding_all rfl

/-- A sum of two items is accepted. -/
theorem parse?_eq : built.language.parse? "x+x" = some ⟨some document, []⟩ :=
  parse?_of_lexicon draft.keyTerms rfl lexicon_eq

end SignedSums

end TypedGrammar
