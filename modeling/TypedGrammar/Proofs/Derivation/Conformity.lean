import TypedGrammar.Proofs.Derivation.Basic
import TypedGrammar.Proofs.Grammar.Building
import TypedGrammar.Proofs.Matching.TokenForms
import TypedGrammar.Proofs.Tree.Parts

/-!
# Conformity of trees

What the trees of a language look like, said without its engine: tokens have texts of their terms,
and the parts below the node of a rule are a word of the shape of this rule.
-/

namespace TypedGrammar

namespace Tree

/-- The kinds of the trees that are not trivia. -/
def partKinds (trees : List Tree) : List TreeKind :=
  (trees.filter (!·.isTrivia)).map kind

/-- The kinds of the trees that are nodes. -/
def nodeKinds (trees : List Tree) : List TreeKind :=
  trees.filterMap fun tree =>
    match tree with
    | node kind _ => some kind
    | token _ _ => none

@[simp] theorem partKinds_append (trees more : List Tree) :
    partKinds (trees ++ more) = partKinds trees ++ partKinds more := by
  rw [partKinds, List.filter_append, List.map_append]
  rfl

@[simp] theorem partKinds_skipped (start stop : Cursor) : partKinds (skipped start stop) = [] := by
  rcases skipped_cases start stop with h | ⟨text, h⟩
  · rw [h]
    rfl
  · rw [h]
    rfl

@[simp] theorem nodeKinds_skipped (start stop : Cursor) : nodeKinds (skipped start stop) = [] := by
  rcases skipped_cases start stop with h | ⟨text, h⟩
  · rw [h]
    rfl
  · rw [h]
    rfl

end Tree

namespace Language

open Matcher TypedGrammar.Tree

/-- **Words of shapes.**  The kinds of parts that some shapes, one after the other, allow.  Where a
rule is transient, a word of its own shape stands. -/
inductive Word (language : Language) : List Shape → List TreeKind → Prop
  | done : Word language [] []
  | unfold {shape shapes rest kinds} :
      shape.Unfolds shapes → Word language (shapes ++ rest) kinds →
      Word language (shape :: rest) kinds
  | terminal {index term rest kinds} :
      language.term? index = some term → term.isTerminal = true → Word language rest kinds →
      Word language (.term index :: rest) (.term index :: kinds)
  | rule {index term shape rest kinds} :
      language.Defines index term shape → term.flags.has .transient = false →
      Word language rest kinds → Word language (.term index :: rest) (.term index :: kinds)
  | spliced {index term shape inner rest kinds} :
      language.Defines index term shape → term.flags.has .transient = true →
      Word language [shape] inner → Word language rest kinds →
      Word language (.term index :: rest) (inner ++ kinds)

/-- **Conformity.**  A token has a text of its term; a node stands for a rule that is not transient,
its parts are a word of the shape of the rule, and all of them conform. -/
inductive Conforms (language : Language) : Tree → Prop
  | trivia {text} : Conforms language (.token .trivia text)
  | token {index term text} :
      language.term? index = some term → language.lexicon.Spells term.kind text →
      Conforms language (.token (.term index) text)
  | node {index term shape children} :
      language.Defines index term shape → term.flags.has .transient = false →
      language.Word [shape] (partKinds children) → (∀ child ∈ children, Conforms language child) →
      Conforms language (.node (.term index) children)

variable {language : Language} {room : ℕ} {shapes : List Shape} {start stop : Cursor}
  {trees : List Tree} {text : String} {parse : Parse} {tree : Tree}

/-- A term with tokens is a terminal. -/
theorem isTerminal_of_tokenText? {lexicon : Lexicon} {term : Term} {token : Matcher String}
    (h : tokenText? lexicon term.kind = some token) : term.isTerminal = true := by
  unfold Term.isTerminal
  split
  · next hkind =>
    rw [hkind] at h
    cases h
  · rfl

/-- What is derived are parts of a word. -/
theorem Derives.word (h : language.Derives room shapes start trees stop) :
    language.Word shapes (partKinds trees) := by
  induction h with
  | done => exact .done
  | unfold hunfolds _ ih => exact .unfold hunfolds ih
  | token hterm htoken _ _ _ ih =>
    rw [partKinds_append, partKinds_skipped, List.nil_append]
    exact .terminal hterm (isTerminal_of_tokenText? htoken) ih
  | @rule _ _ term _ _ _ _ _ _ _ hdef _ _ ihChildren ihRest =>
    rw [partKinds_append]
    cases htransient : term.flags.has .transient with
    | true =>
      rw [ruleTrees, if_pos htransient]
      exact .spliced hdef htransient ihChildren ihRest
    | false =>
      rw [ruleTrees, if_neg (Bool.eq_false_iff.mp htransient)]
      exact .rule hdef htransient ihRest

/-- What is derived conforms. -/
theorem Derives.conforms (hkeys : language.HasKeyTexts)
    (h : language.Derives room shapes start trees stop) : ∀ tree ∈ trees, language.Conforms tree :=
  h.each (P := fun _ => language.Conforms) (fun _ _ h => h) (fun _ _ => .trivia)
    (fun _ _ _ _ _ _ _ hterm htoken htext =>
      .token hterm (spells_of_takes_token htoken htext (hkeys.kind_ne hterm)))
    fun _ _ _ _ _ _ _ hdef hnode hchildren ih => .node hdef hnode hchildren.word ih

/-- **Conformity of parses.**  Below the document everything conforms, and the parts are a word of
the root.  A root that is a rule and not transient is the only node there. -/
theorem conforms_of_parse? (hkeys : language.HasKeyTexts) (h : language.parse? text = some parse)
    (htree : parse.tree = some tree) :
    ∃ children, tree = .node .document children ∧ (∀ child ∈ children, language.Conforms child) ∧
      language.Word [.term language.root] (partKinds children) ∧
      ∀ term shape, language.Defines language.root term shape →
        term.flags.has .transient = false → nodeKinds children = [.term language.root] := by
  obtain ⟨trees, middle, stop, htrees, _, _, rfl⟩ := derives_of_parse? h htree
  refine ⟨trees ++ skipped middle stop, rfl, ?_, ?_, ?_⟩
  · intro child hchild
    rcases List.mem_append.mp hchild with hchild | hchild
    · exact htrees.conforms hkeys child hchild
    · obtain ⟨text, rfl⟩ := mem_skipped hchild
      exact .trivia
  · rw [partKinds_append, partKinds_skipped, List.append_nil]
    exact htrees.word
  · intro term shape hdef hnode
    obtain ⟨below, children, _, _, rfl⟩ := htrees.of_rule hdef
    rw [ruleTrees, if_neg (Bool.eq_false_iff.mp hnode), List.singleton_append]
    show TreeKind.term language.root :: nodeKinds (skipped middle stop) = _
    rw [nodeKinds_skipped]

/-- The parse of two items with an operator between them. -/
theorem conforms_of_parse?_twoItems :
    SignedSums.built.language.HasKeyTexts ∧
      SignedSums.built.language.parse? "x+x" = some ⟨some SignedSums.document, []⟩ ∧
      ∃ children, SignedSums.document = .node .document children ∧
        (∀ child ∈ children, SignedSums.built.language.Conforms child) ∧
        SignedSums.built.language.Word [.term SignedSums.built.language.root] (partKinds children) ∧
        ∀ term shape,
          SignedSums.built.language.Defines SignedSums.built.language.root term shape →
            term.flags.has .transient = false →
              nodeKinds children = [.term SignedSums.built.language.root] := by
  have hkeys : SignedSums.built.language.HasKeyTexts := by decide +kernel
  exact ⟨hkeys, SignedSums.parse?_eq, conforms_of_parse? hkeys SignedSums.parse?_eq rfl⟩

end Language

end TypedGrammar
