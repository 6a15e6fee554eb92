import TypedGrammar.Proofs.Grammar.Likeness
import TypedGrammar.Proofs.Rule.NodeTypes

/-!
# Grammars without hints

A grammar whose hints make no difference to what is registered parses every text as the same
grammar without hints does.  Where a hint stands next to the single item of a list it does make a
difference: the item is no longer a single term, so it becomes a sequence, and lists leave out
sequences.
-/

namespace TypedGrammar

/-- A language with numbers to spare comes from a draft that is not full. -/
theorem Draft.not_isFull {draft : Draft} {name : String} {root : TermIndex}
    {comments : List Comment}
    (h : (draft.complete name root comments).language.terms.size < termLimit) : ¬ draft.IsFull := by
  intro hfull
  have hsize : (draft.complete name root comments).language.terms.size = draft.entries.size :=
    Array.size_map ..
  rw [hsize] at h
  exact absurd hfull (Nat.not_le.mpr h)

namespace GrammarDescription

/-- The description with nothing in place of hints. -/
def withoutHints (description : GrammarDescription) : GrammarDescription :=
  { description with types := description.types.map NodeDeclaration.withoutHints }

/-- No hint makes a difference to any node type. -/
def IsHintSafe (description : GrammarDescription) : Prop :=
  ∀ type ∈ description.types, type.IsHintSafe

variable {description : GrammarDescription} {built plain : BuiltGrammar}

/-- What a hint-safe description is compiled to is like what it is compiled to without hints, unless
all numbers of terms are used up. -/
theorem IsHintSafe.exists_alike (hsafe : description.IsHintSafe)
    (h : description.compile = .ok built) (h' : description.withoutHints.compile = .ok plain)
    (hroom : built.language.terms.size < termLimit)
    (hroom' : plain.language.terms.size < termLimit) : ∃ R, BuiltGrammar.Alike R built plain := by
  obtain ⟨_, i, draft, _, hrun, rfl⟩ := compile_ok h
  obtain ⟨_, j, draft', _, hrun', rfl⟩ := compile_ok h'
  have hruns := Drafting.parallel_defineNodeWithin hsafe (description.types.size + 1)
    description.root _ (le_refl fun _ _ => False) .empty .empty Draft.alike_empty
  have hdefine : (Drafting.defineNodeWithin description.types (description.types.size + 1)
      description.root).runOn .empty = (.ok i, draft) := hrun
  have hdefine' : (Drafting.defineNodeWithin (description.types.map NodeDeclaration.withoutHints)
      (description.types.size + 1) description.root).runOn .empty = (.ok j, draft') := by
    rw [← hrun', Drafting.defineNode]
    show _ = (Drafting.defineNodeWithin (description.types.map NodeDeclaration.withoutHints)
      ((description.types.map NodeDeclaration.withoutHints).size + 1) description.root).runOn .empty
    rw [Array.size_map]
  rw [hdefine, hdefine'] at hruns
  cases hruns with
  | fullLeft hfull => exact absurd hfull (Draft.not_isFull hroom)
  | fullRight hfull => exact absurd hfull (Draft.not_isFull hroom')
  | ok R _ halike hij => exact ⟨R, halike.complete description.name hij description.comments⟩

end GrammarDescription

namespace Grammar

/-- Whether a text has a tree, and the errors that are reported about it; nothing if the grammar is
not built, or if matching would never end. -/
def verdict (grammar : Grammar) (text : String) : Option (Bool × List TextError) := do
  let built ← grammar.built
  let parse ← built.language.parse? text
  return (parse.tree.isSome, parse.errors)

/-- Not all numbers of terms are used up. -/
def HasRoom (grammar : Grammar) : Prop :=
  ∀ built, grammar.built = some built → built.language.terms.size < termLimit

variable {description : GrammarDescription} {grammar plain : Grammar}
  {threshold threshold' : Severity}

/-- **Grammars without hints.**  Let a description be built with hints and without, and let hints
make no difference to what is registered.  Then both grammars accept the same texts, report the same
errors about others, and parse every text into the same value tree. -/
theorem parse_eq_withoutHints (hsafe : description.IsHintSafe)
    (h : (Grammar.mk description none).build threshold = (.ok true, grammar))
    (h' : (Grammar.mk description.withoutHints none).build threshold' = (.ok true, plain))
    (hroom : grammar.HasRoom) (hroom' : plain.HasRoom) (text source : String)
    (severity : Severity) :
    grammar.verdict text = plain.verdict text ∧
      grammar.parse text source severity = plain.parse text source severity := by
  obtain ⟨built, hcompile, _, rfl⟩ := build_ok h
  obtain ⟨built', hcompile', _, rfl⟩ := build_ok h'
  obtain ⟨R, halike⟩ := hsafe.exists_alike hcompile hcompile' (hroom built rfl) (hroom' built' rfl)
  constructor
  · have hparse := halike.parse? text
    unfold verdict
    simp only [Option.bind_eq_bind, Option.bind_some]
    generalize built.language.parse? text = parsed, built'.language.parse? text = parsed' at hparse
    cases hparse with
    | none => rfl
    | @some p q hlike =>
      have htree : p.tree.isSome = q.tree.isSome := by
        have htrees := hlike.tree
        generalize p.tree = tree, q.tree = tree' at htrees
        cases htrees <;> rfl
      simp only [Option.bind_some, hlike.errors, htree]
  · have hroot : (Grammar.mk description (some built)).isRoot =
        (Grammar.mk description.withoutHints (some built')).isRoot := by
      have htype : description.withoutHints.types[description.withoutHints.root]? =
          description.types[description.root]?.map NodeDeclaration.withoutHints :=
        Array.getElem?_map
      funext node
      simp only [isRoot, htype]
      cases description.types[description.root]? <;> rfl
    exact @parse_eq_of_alike R built built' (Grammar.mk description (some built))
      (Grammar.mk description.withoutHints (some built')) halike rfl rfl rfl hroot text source
      severity

end Grammar

/-! ## Letters behind hints

Two grammars of letters behind hints.  In one the hint decides only which terms are registered; in
the other it decides whether the item of a list is a single term. -/

namespace HintedLetters

open Drafting TypedGrammar.Tree

/-- The root is the first term. -/
def rootIndex : TermIndex :=
  .ofNat 0

/-- The letter follows the root. -/
def letterIndex : TermIndex :=
  .ofNat 1

/-- The term behind the letter. -/
def thirdIndex : TermIndex :=
  .ofNat 2

/-- The last term, which is only there because of the hint. -/
def fourthIndex : TermIndex :=
  .ofNat 3

/-- The request for the letter. -/
def letter : KeyRequest where
  name := "x"
  text := "x"
  value := .text "x"
  flags := .none
  precedence := none

/-- A letter behind a hint. -/
def hinted : Rule :=
  .followedBy (.hint .preferShift) (.key letter)

/-- The shape of a letter behind a hint. -/
def hintedShape : Shape :=
  .sequence [.hint .preferShift, .term letterIndex]

/-- The node type of the root, with a rule of its own. -/
def node (rule : Rule) : NodeDeclaration where
  typeName := "A"
  name := "A"
  number := 0
  valueType := .unit
  rule
  afterthoughts := []
  build _ := .ok .null

/-- The grammar of one rule. -/
def description (rule : Rule) : GrammarDescription where
  name := "Letters"
  types := #[node rule]
  root := 0
  comments := []

/-- Leaving out hints leaves them out of the rule. -/
theorem description_withoutHints (rule : Rule) :
    (description rule).withoutHints = description rule.withoutHints := by
  with_unfolding_all rfl

/-- The draft in which only the root is declared. -/
def declared (rule : Rule) : Draft :=
  { Draft.empty with
    entries := #[(node rule).pending]
    declared := [("A", rootIndex)]
    claims := [("A", "A")] }

/-- The table of the letter. -/
def keyTerms : KeyTermTable :=
  KeyTermTable.empty.push ⟨letter, letterIndex⟩

/-- The draft once the letter is registered. -/
def opened (rule : Rule) : Draft :=
  { declared rule with
    entries := #[(node rule).pending, letter.entry]
    keyTerms }

/-- What the grammar is compiled to from the draft in which its rule was evaluated. -/
def finish (draft : Draft) (shape : Shape) : BuiltGrammar :=
  (draft.modifyTerm rootIndex (·.withShape shape)).complete "Letters" rootIndex []

section Building

variable {rule : Rule} {draft : Draft} {shape : Shape}

/-- The grammar is compiled by evaluating its rule. -/
theorem compile_eq
    (h : ∀ define, (rule.eval define).runOn (declared rule) = (.ok shape, draft)) :
    (description rule).compile = .ok (finish draft shape) := by
  have hdeclare : (declare "A" (node rule).pending).runOn .empty =
      (.ok rootIndex, declared rule) := by
    simp [declare, claim, Draft.empty, Draft.pushEntry, TermIndex.ofNat?, termLimit, List.lookup_nil]
    exact ⟨rfl, rfl⟩
  have hnew : Draft.empty.declared.lookup "A" = none := rfl
  have hrun : (defineNode (description rule).types (description rule).root).runOn .empty =
      (.ok rootIndex, draft.modifyTerm rootIndex (·.withShape shape)) := by
    show (declaredOr "A" (declare "A" (node rule).pending >>= fun index =>
      rule.eval (defineNodeWithin (description rule).types 1) >>= fun shape =>
        setShape index shape >>= fun _ => pure index)).runOn .empty = _
    simp only [runOn_declaredOr, hnew, runOn_bind, hdeclare, h, runOn_setShape, runOn_pure]
  rw [GrammarDescription.compile, hrun]
  rfl

/-- The letter is registered at its first request. -/
theorem runOn_letter (define : ℕ → Drafting TermIndex) :
    ((Rule.key letter).eval define).runOn (declared rule) =
      (.ok (.term letterIndex), opened rule) := by
  have hlookup : (declared rule).keyTerms.lookup letter = .ok none := by
    simp [declared, Draft.empty, KeyTermTable.lookup, letter]
  rw [Rule.eval, runOn_map, runOn_key, hlookup]
  rfl

/-- It is found at the next one. -/
theorem runOn_letter_again (define : ℕ → Drafting TermIndex) (hkeys : draft.keyTerms = keyTerms) :
    ((Rule.key letter).eval define).runOn draft = (.ok (.term letterIndex), draft) := by
  have hlookup : draft.keyTerms.lookup letter = .ok (some letterIndex) := by
    rw [hkeys]
    simp [keyTerms, KeyTermTable.lookup, KeyTermTable.get?_push, KeyRequest.agrees, Value.equal,
      letter]
  rw [Rule.eval, runOn_map, runOn_key, hlookup]
  rfl

variable (rule) (define : ℕ → Drafting TermIndex)

/-- The letter behind its hint is a sequence. -/
theorem runOn_hinted :
    (hinted.eval define).runOn (declared rule) = (.ok hintedShape, opened rule) := by
  rw [hinted, Rule.eval, runOn_bind, Rule.eval, runOn_pure]
  simp only [runOn_bind, runOn_letter]
  rfl

/-- The letter without its hint is a single term. -/
theorem runOn_hinted_withoutHints :
    (hinted.withoutHints.eval define).runOn (declared rule) =
      (.ok (.term letterIndex), opened rule) := by
  rw [hinted, Rule.withoutHints, Rule.withoutHints, Rule.eval, runOn_bind, Rule.eval, runOn_pure]
  simp only [Rule.withoutHints, runOn_bind, runOn_letter]
  rfl

end Building

/-! ### Optional letters -/

/-- A letter behind a hint that may be missing, then one without a hint. -/
def twice : Rule :=
  .followedBy (.optional hinted) (.optional (.key letter))

/-- The hint does not make a choice of the letter. -/
theorem isHintSafe_twice : (description twice).IsHintSafe := by
  intro type htype
  obtain rfl : type = node twice := by simpa [description] using htype
  have hhinted : (Rule.optional hinted).IsHintSafe := ⟨⟨trivial, trivial⟩, by decide⟩
  have hletter : (Rule.optional (.key letter)).IsHintSafe :=
    ⟨trivial, Rule.choosesAlike_of_withoutHints_eq rfl⟩
  exact ⟨⟨hhinted, hletter⟩, fun _ hmem => absurd hmem List.not_mem_nil⟩

/-- The draft with one more optional part. -/
def withOptional (draft : Draft) (shape : Shape) (index : TermIndex) : Draft :=
  { draft.pushEntry {
      name := draft.label shape ++ "?"
      kind := .rule (some shape.orEmpty)
      maker := some .optional } with
    optionals := (shape, index) :: draft.optionals }

/-- An optional that is not registered yet gets the next number. -/
theorem runOn_optional_new {draft : Draft} {shape : Shape} {index : TermIndex}
    (hnew : draft.optionals.lookup shape = none)
    (hindex : TermIndex.ofNat? draft.entries.size = some index) :
    (optional shape).runOn draft = (.ok (.term index), withOptional draft shape index) := by
  rw [runOn_optional, hnew]
  simp only
  rw [runOn_noteRule, hindex]
  rfl

/-- Optional parts are registered one after the other. -/
theorem runOn_optionals {define : ℕ → Drafting TermIndex} {first second : Rule} {s t a b : Shape}
    {d d₁ d₂ d₃ d₄ : Draft} (hfirst : (first.eval define).runOn d = (.ok s, d₁))
    (ha : (optional s).runOn d₁ = (.ok a, d₂))
    (hsecond : (second.eval define).runOn d₂ = (.ok t, d₃))
    (hb : (optional t).runOn d₃ = (.ok b, d₄)) :
    ((Rule.followedBy (.optional first) (.optional second)).eval define).runOn d =
      (.ok (a ++ b), d₄) := by
  simp only [Rule.eval, runOn_bind, hfirst, ha, hsecond, hb, runOn_pure]

/-- The draft of the two optionals, with hints. -/
def twiceDraft : Draft :=
  withOptional (withOptional (opened twice) hintedShape thirdIndex) (.term letterIndex) fourthIndex

/-- The draft of the same two optionals without hints, which are one. -/
def twicePlainDraft : Draft :=
  withOptional (opened twice.withoutHints) (.term letterIndex) thirdIndex

/-- With the hint there are two optional parts. -/
theorem runOn_twice (define : ℕ → Drafting TermIndex) :
    (twice.eval define).runOn (declared twice) =
      (.ok (.sequence [.term thirdIndex, .term fourthIndex]), twiceDraft) :=
  runOn_optionals (runOn_hinted twice define) (runOn_optional_new rfl rfl)
    (runOn_letter_again define rfl) (runOn_optional_new (by decide) rfl)

/-- Without it both optional parts are one. -/
theorem runOn_twice_withoutHints (define : ℕ → Drafting TermIndex) :
    (twice.withoutHints.eval define).runOn (declared twice.withoutHints) =
      (.ok (.sequence [.term thirdIndex, .term thirdIndex]), twicePlainDraft) := by
  have hknown : (optional (.term letterIndex)).runOn twicePlainDraft =
      (.ok (.term thirdIndex), twicePlainDraft) := by
    rw [runOn_optional]
    rfl
  exact runOn_optionals (runOn_hinted_withoutHints _ define) (runOn_optional_new rfl rfl)
    (runOn_letter_again define rfl) hknown

/-- The grammar of the two optionals, with hints. -/
def twiceBuilt : BuiltGrammar :=
  finish twiceDraft (.sequence [.term thirdIndex, .term fourthIndex])

/-- The grammar of the two optionals, without hints. -/
def twicePlain : BuiltGrammar :=
  finish twicePlainDraft (.sequence [.term thirdIndex, .term thirdIndex])

/-- It is built with hints. -/
theorem build_twice : (Grammar.mk (description twice) none).build .error =
    (.ok true, ⟨description twice, some twiceBuilt⟩) :=
  Grammar.build_of_compile (compile_eq runOn_twice) (by decide +kernel)

/-- It is built without hints. -/
theorem build_twice_withoutHints :
    (Grammar.mk (description twice).withoutHints none).build .error =
      (.ok true, ⟨(description twice).withoutHints, some twicePlain⟩) := by
  rw [description_withoutHints]
  exact Grammar.build_of_compile (compile_eq runOn_twice_withoutHints) (by decide +kernel)

/-- Two letters are parsed alike, though the hint in front of one makes a term of its own. -/
theorem parse_eq_withoutHints_twice :
    (description twice).IsHintSafe ∧
      (Grammar.mk (description twice) none).build .error =
        (.ok true, ⟨description twice, some twiceBuilt⟩) ∧
      (Grammar.mk (description twice).withoutHints none).build .error =
        (.ok true, ⟨(description twice).withoutHints, some twicePlain⟩) ∧
      twiceBuilt.language.terms.size = 4 ∧ twicePlain.language.terms.size = 3 ∧
      (Grammar.mk (description twice) (some twiceBuilt)).verdict "xx" =
        (Grammar.mk (description twice).withoutHints (some twicePlain)).verdict "xx" ∧
      (Grammar.mk (description twice) (some twiceBuilt)).parse "xx" "s" .error =
        (Grammar.mk (description twice).withoutHints (some twicePlain)).parse "xx" "s" .error := by
  have hsize : twiceBuilt.language.terms.size = 4 := by
    with_unfolding_all rfl
  have hsize' : twicePlain.language.terms.size = 3 := by
    with_unfolding_all rfl
  have hroom : (Grammar.mk (description twice) (some twiceBuilt)).HasRoom := by
    rintro _ ⟨⟩
    rw [hsize]
    decide
  have hroom' : (Grammar.mk (description twice).withoutHints (some twicePlain)).HasRoom := by
    rintro _ ⟨⟩
    rw [hsize']
    decide
  exact ⟨isHintSafe_twice, build_twice, build_twice_withoutHints, hsize, hsize',
    Grammar.parse_eq_withoutHints isHintSafe_twice build_twice build_twice_withoutHints hroom hroom'
      "xx" "s" .error⟩

/-! ### Lists of letters -/

/-- A list has at least one item, and no delimiter at its end. -/
def bounds : Bounds :=
  ⟨false, false⟩

/-- A list of letters behind hints. -/
def letters : Rule :=
  .list .text hinted bounds

/-- The draft once the letter behind the hint is grouped. -/
def grouped : Draft :=
  { (opened letters).pushEntry {
      name := (opened letters).label hintedShape
      kind := .rule (some hintedShape) } with
    groups := [(hintedShape, thirdIndex)] }

/-- The draft with a list of a term that stands for a shape. -/
def withList (draft : Draft) (shape : Shape) (item index : TermIndex) : Draft :=
  { draft.pushEntry {
      name := draft.label (.term item) ++ Shape.countSign bounds
      kind := .rule (some (.repeated (.term item) bounds))
      flags := .ofList [.list]
      maker := some (.list .text) } with
    lists := (⟨.text, shape, none, bounds⟩, index) :: draft.lists }

/-- The draft of the list, whose item is grouped because of the hint. -/
def lettersDraft : Draft :=
  withList grouped hintedShape thirdIndex fourthIndex

/-- The draft of the list whose item is the letter itself. -/
def lettersPlainDraft : Draft :=
  withList (opened letters.withoutHints) (.term letterIndex) letterIndex thirdIndex

/-- With the hint the items of the list are sequences. -/
theorem runOn_letters (define : ℕ → Drafting TermIndex) :
    (letters.eval define).runOn (declared letters) = (.ok (.term fourthIndex), lettersDraft) := by
  have hgroup : (group hintedShape).runOn (opened letters) = (.ok (.term thirdIndex), grouped) := by
    rw [runOn_group]
    rfl
  have hlist : (list .text hintedShape none bounds).runOn (opened letters) =
      (.ok (.term fourthIndex), lettersDraft) := by
    rw [runOn_list, hgroup]
    rfl
  show (hinted.eval define >>= fun shape => list .text shape none _).runOn (declared letters) = _
  rw [runOn_bind, runOn_hinted]
  exact hlist

/-- Without it they are letters. -/
theorem runOn_letters_withoutHints (define : ℕ → Drafting TermIndex) :
    (letters.withoutHints.eval define).runOn (declared letters.withoutHints) =
      (.ok (.term thirdIndex), lettersPlainDraft) := by
  have hlist : (list .text (.term letterIndex) none bounds).runOn (opened letters.withoutHints) =
      (.ok (.term thirdIndex), lettersPlainDraft) := by
    rw [runOn_list]
    rfl
  show (hinted.withoutHints.eval define >>= fun shape => list .text shape none _).runOn
    (declared letters.withoutHints) = _
  rw [runOn_bind, runOn_hinted_withoutHints]
  exact hlist

/-- The grammar of the list, with hints. -/
def lettersBuilt : BuiltGrammar :=
  finish lettersDraft (.term fourthIndex)

/-- The grammar of the list, without hints. -/
def lettersPlain : BuiltGrammar :=
  finish lettersPlainDraft (.term thirdIndex)

/-- It is built with hints. -/
theorem build_letters : (Grammar.mk (description letters) none).build .error =
    (.ok true, ⟨description letters, some lettersBuilt⟩) :=
  Grammar.build_of_compile (compile_eq runOn_letters) (by decide +kernel)

/-- It is built without hints. -/
theorem build_letters_withoutHints :
    (Grammar.mk (description letters).withoutHints none).build .error =
      (.ok true, ⟨(description letters).withoutHints, some lettersPlain⟩) := by
  rw [description_withoutHints]
  exact Grammar.build_of_compile (compile_eq runOn_letters_withoutHints) (by decide +kernel)

/-- The letter is the only key term. -/
theorem lexicon_eq {language : Language} (hkeys : language.keyTerms = keyTerms)
    (hcomments : language.comments = []) : language.lexicon = ⟨[], [], []⟩ := by
  refine Language.lexicon_of_texts ?_ List.Pairwise.nil ?_ hcomments
  · rw [hkeys]
    decide +kernel
  · rw [Language.reserved, hkeys]
    decide +kernel

/-- The tree of a list. -/
def document (list : TermIndex) (item : Tree) : Tree :=
  .node .document [.node (.term rootIndex) [.node (.term list) [item]]]

/-- The token of the letter. -/
def letterTree : Tree :=
  .token (.term letterIndex) "x"

/-- Besides the lexicon, only the terms matter for the tree of a text. -/
theorem parse?_of_lexicon {language : Language} (keyTerms : KeyTermTable) (group list : String)
    (h : language = ⟨"Letters", #[
      { name := "A", kind := .rule (some (.term fourthIndex)) },
      letter.entry.toTerm,
      { name := group, kind := .rule (some hintedShape) },
      { name := list
        kind := .rule (some (.repeated (.term thirdIndex) bounds))
        flags := .ofList [.list] }], keyTerms, rootIndex, []⟩)
    (hlexicon : language.lexicon = ⟨[], [], []⟩) :
    language.parse? "x" =
      some ⟨some (document fourthIndex (.node (.term thirdIndex) [letterTree])), []⟩ := by
  rw [Language.parse?, Language.matchDocument]
  simp only [hlexicon]
  subst h
  clear hlexicon
  cbv

/-- Without hints the letter is a child of the list. -/
theorem parse?_of_lexicon_plain {language : Language} (keyTerms : KeyTermTable) (list : String)
    (h : language = ⟨"Letters", #[
      { name := "A", kind := .rule (some (.term thirdIndex)) },
      letter.entry.toTerm,
      { name := list
        kind := .rule (some (.repeated (.term letterIndex) bounds))
        flags := .ofList [.list] }], keyTerms, rootIndex, []⟩)
    (hlexicon : language.lexicon = ⟨[], [], []⟩) :
    language.parse? "x" = some ⟨some (document thirdIndex letterTree), []⟩ := by
  rw [Language.parse?, Language.matchDocument]
  simp only [hlexicon]
  subst h
  clear hlexicon
  cbv

/-- With hints the letter is accepted as a node inside the list. -/
theorem parse?_letters : lettersBuilt.language.parse? "x" =
    some ⟨some (document fourthIndex (.node (.term thirdIndex) [letterTree])), []⟩ :=
  parse?_of_lexicon keyTerms _ _ (by with_unfolding_all rfl) (lexicon_eq rfl rfl)

/-- Without hints it is accepted as a child of the list. -/
theorem parse?_letters_withoutHints : lettersPlain.language.parse? "x" =
    some ⟨some (document thirdIndex letterTree), []⟩ :=
  parse?_of_lexicon_plain keyTerms _ (by with_unfolding_all rfl) (lexicon_eq rfl rfl)

/-- Where the text begins. -/
def start : Location :=
  ⟨0, 0, 0, "s"⟩

/-- The node of the root with a list of letters below it. -/
def lettersNode (nodes : List Node) : Node :=
  .declared start ⟨0, "A"⟩ .unit [.list start .text nodes]

/-- **Hints have an effect.**  A hint in front of the item of a list empties the list: both grammars
are built and accept the text, but with the hint the list has no nodes, and without it the letter is
in the list. -/
theorem parse_ne_withoutHints :
    (Grammar.mk (description letters) none).build .error =
        (.ok true, ⟨description letters, some lettersBuilt⟩) ∧
      (Grammar.mk (description letters).withoutHints none).build .error =
        (.ok true, ⟨(description letters).withoutHints, some lettersPlain⟩) ∧
      (Grammar.mk (description letters) (some lettersBuilt)).parse "x" "s" .error =
        .ok (lettersNode []) ∧
      (Grammar.mk (description letters).withoutHints (some lettersPlain)).parse "x" "s" .error =
        .ok (lettersNode [.key start (.text "x") "x" "x" .none none]) := by
  refine ⟨build_letters, build_letters_withoutHints, ?_, ?_⟩
  · rw [Grammar.parse_eq_rootNode rfl parse?_letters rfl]
    with_unfolding_all rfl
  · rw [Grammar.parse_eq_rootNode rfl parse?_letters_withoutHints rfl]
    with_unfolding_all rfl

end HintedLetters

end TypedGrammar
