import TypedGrammar.Proofs.Draft.Likeness
import TypedGrammar.Proofs.Grammar.Parsing
import TypedGrammar.Proofs.Matching.Likeness

/-!
# Likeness of grammars

Two built grammars are alike if their roots are, where terms are alike if they are one and the same,
or rules with like shapes whose nodes are made in the same way.  Such grammars accept the same
texts, report the same errors, and read the same values; only the numbers of terms differ in
their trees, and the names of rules.
-/

namespace TypedGrammar

/-! ## Trees -/

/-- Two trees are alike if the tokens and nodes of one stand for like terms as those of the other:
tokens as `P` says, nodes as `Q` says. -/
inductive Tree.Alike (P Q : TermIndex → TermIndex → Prop) : Tree → Tree → Prop
  | trivia {text : String} : Tree.Alike P Q (.token .trivia text) (.token .trivia text)
  | token {i j : TermIndex} {text : String} : P i j →
      Tree.Alike P Q (.token (.term i) text) (.token (.term j) text)
  | node {i j : TermIndex} {children children' : List Tree} : Q i j →
      List.Forall₂ (Tree.Alike P Q) children children' →
      Tree.Alike P Q (.node (.term i) children) (.node (.term j) children')
  | document {children children' : List Tree} : List.Forall₂ (Tree.Alike P Q) children children' →
      Tree.Alike P Q (.node .document children) (.node .document children')

namespace Tree

variable {P Q : TermIndex → TermIndex → Prop} {tree tree' : Tree} {trees trees' : List Tree}

/-- Trees that are alike are both trivia or neither is. -/
theorem Alike.isTrivia_eq (h : Tree.Alike P Q tree tree') : tree.isTrivia = tree'.isTrivia := by
  cases h <;> rfl

/-- Trees that are alike one by one are equally long. -/
theorem byteLengthOfAll_eq_of_forall₂ (h : List.Forall₂ (Tree.Alike P Q) trees trees')
    (heach : ∀ tree ∈ trees, ∀ tree', Tree.Alike P Q tree tree' →
      tree.byteLength = tree'.byteLength) : byteLengthOfAll trees = byteLengthOfAll trees' := by
  induction h with
  | nil => rfl
  | cons hfirst _ ih =>
    rw [List.forall_mem_cons] at heach
    rw [byteLengthOfAll, byteLengthOfAll, heach.1 _ hfirst, ih heach.2]

/-- Like trees are equally long. -/
theorem Alike.byteLength_eq (h : Tree.Alike P Q tree tree') :
    tree.byteLength = tree'.byteLength := by
  induction tree generalizing tree' with
  | token kind text => cases h <;> rfl
  | node kind children ih =>
    cases h with
    | node _ hchildren => exact byteLengthOfAll_eq_of_forall₂ hchildren fun t ht _ h => ih t ht h
    | document hchildren => exact byteLengthOfAll_eq_of_forall₂ hchildren fun t ht _ h => ih t ht h

/-- Among trees that are alike one by one the first tokens are at the same places. -/
theorem firstTokenOfAll?_eq_of_forall₂ (h : List.Forall₂ (Tree.Alike P Q) trees trees')
    (heach : ∀ tree ∈ trees, ∀ tree' offset, Tree.Alike P Q tree tree' →
      tree.firstToken? offset = tree'.firstToken? offset) (offset : ℕ) :
    firstTokenOfAll? offset trees = firstTokenOfAll? offset trees' := by
  induction h generalizing offset with
  | nil => rfl
  | cons hfirst _ ih =>
    rw [List.forall_mem_cons] at heach
    rw [firstTokenOfAll?, firstTokenOfAll?, heach.1 _ offset hfirst, hfirst.byteLength_eq,
      ih heach.2]

/-- The first token of like trees is at the same place. -/
theorem Alike.firstToken?_eq (h : Tree.Alike P Q tree tree') (offset : ℕ) :
    tree.firstToken? offset = tree'.firstToken? offset := by
  induction tree generalizing tree' offset with
  | token kind text => cases h <;> rfl
  | node kind children ih =>
    cases h with
    | node _ hchildren =>
      exact firstTokenOfAll?_eq_of_forall₂ hchildren (fun t ht _ offset h => ih t ht h offset) offset
    | document hchildren =>
      exact firstTokenOfAll?_eq_of_forall₂ hchildren (fun t ht _ offset h => ih t ht h offset) offset

end Tree

/-! ## Grammars -/

namespace BuiltGrammar

variable {R : TermIndex → TermIndex → Prop} {a b : BuiltGrammar} {i j : TermIndex}

/-- The term of an index and its maker. -/
def Has (built : BuiltGrammar) (index : TermIndex) (entry : Entry) : Prop :=
  built.language.term? index = some entry.toTerm ∧
    built.makers[index.value]? = some entry.maker

/-- Two terms are one and the same, and have no shape. -/
def SharesTerm (a b : BuiltGrammar) (i j : TermIndex) : Prop :=
  ∃ entry : Entry, a.Has i entry ∧ b.Has j entry ∧ entry.shape? = none

/-- Two terms are rules with like shapes, whose nodes are made in the same way. -/
def SharesRule (R : TermIndex → TermIndex → Prop) (a b : BuiltGrammar) (i j : TermIndex) : Prop :=
  ∃ (entry entry' : Entry) (s t : Shape), a.Has i entry ∧ b.Has j entry' ∧
    entry.kind = .rule (some s) ∧ entry'.kind = .rule (some t) ∧ s.Alike R t ∧
    entry.flags = entry'.flags ∧ entry.maker = entry'.maker ∧
    ∀ maker, entry.maker = some maker → maker.IgnoresNames

/-- Two terms are rules whose nodes are made in the same way. -/
def MakesAlike (a b : BuiltGrammar) (i j : TermIndex) : Prop :=
  ∃ (entry entry' : Entry) (s t : Shape), a.Has i entry ∧ b.Has j entry' ∧
    entry.kind = .rule (some s) ∧ entry'.kind = .rule (some t) ∧
    entry.flags = entry'.flags ∧ entry.maker = entry'.maker ∧
    ∀ maker, entry.maker = some maker → maker.IgnoresNames

/-- Terms that share a rule make nodes alike. -/
theorem SharesRule.makesAlike (h : SharesRule R a b i j) : MakesAlike a b i j := by
  obtain ⟨entry, entry', s, t, hi, hj, hkind, hkind', _, hmade⟩ := h
  exact ⟨entry, entry', s, t, hi, hj, hkind, hkind', hmade⟩

/-- **Likeness of grammars.** -/
structure Alike (R : TermIndex → TermIndex → Prop) (a b : BuiltGrammar) : Prop where
  name : a.language.name = b.language.name
  lexicon : a.language.lexicon = b.language.lexicon
  root : R a.language.root b.language.root
  terms : ∀ i j, R i j → SharesTerm a b i j ∨ SharesRule R a b i j

/-- Like trees of two grammars. -/
abbrev TreesAlike (a b : BuiltGrammar) : Tree → Tree → Prop :=
  Tree.Alike (SharesTerm a b) (MakesAlike a b)

end BuiltGrammar

/-! ## Matching -/

namespace Language

open Matcher BuiltGrammar

variable {R : TermIndex → TermIndex → Prop} {a b : BuiltGrammar} {i j : TermIndex}

/-- All outcomes of a matcher are like themselves. -/
theorem alike_refl {α : Type} (p : Matcher α) : Matcher.Alike Eq p p := by
  intro start
  cases p start with
  | matched x stop later => exact .matched rfl
  | failed e => exact .failed
  | stalled => exact .stalled

/-- Skipped text is alike, since it has no terms. -/
theorem alike_triviaTokens {P Q : TermIndex → TermIndex → Prop} (text : Option String) :
    List.Forall₂ (Tree.Alike P Q) (triviaTokens text) (triviaTokens text) := by
  cases text with
  | none => exact .nil
  | some text => exact .cons .trivia .nil

/-- The same token is matched alike for terms that are the same. -/
theorem alike_terminal (comments : List Comment) (token : Matcher String)
    (h : SharesTerm a b i j) :
    Matcher.Alike (List.Forall₂ (TreesAlike a b)) (terminal comments i token)
      (terminal comments j token) := by
  refine (alike_refl (trivia comments)).andThen fun skipped _ hskipped => ?_
  subst hskipped
  refine (alike_refl token).andThen fun text _ htext => ?_
  subst htext
  exact alike_succeed (List.rel_append (alike_triviaTokens skipped) (.cons (.token h) .nil))

/-- What a rule matched becomes like trees. -/
theorem alike_ruleTrees {term term' : Term} {trees trees' : List Tree}
    (hflags : term.flags = term'.flags) (hij : MakesAlike a b i j)
    (h : List.Forall₂ (TreesAlike a b) trees trees') :
    List.Forall₂ (TreesAlike a b) (ruleTrees i term trees) (ruleTrees j term' trees') := by
  unfold ruleTrees
  rw [hflags]
  split
  · exact h
  · exact .cons (.node hij h) .nil

/-- Related terms are matched alike. -/
theorem alike_matchTerm (h : BuiltGrammar.Alike R a b) (lexicon : Lexicon) (room : ℕ)
    (hij : R i j) :
    Matcher.Alike (List.Forall₂ (TreesAlike a b)) (a.language.matchTerm lexicon room i)
      (b.language.matchTerm lexicon room j) := by
  -- The induction is on the room: what is inside a rule has less of it.
  induction room using Nat.strongRecOn generalizing i j with
  | ind room ih =>
    unfold matchTerm
    rcases h.terms i j hij with ⟨entry, ⟨hi, him⟩, ⟨hj, hjm⟩, hshape⟩ | hrule
    · rw [hi, hj]
      simp only
      cases htoken : tokenText? lexicon entry.kind with
      | some token =>
        exact alike_terminal lexicon.comments token ⟨entry, ⟨hi, him⟩, ⟨hj, hjm⟩, hshape⟩
      | none =>
        simp only
        rw [hshape]
        exact alike_fail _
    · obtain ⟨entry, entry', s, t, ⟨hi, _⟩, ⟨hj, _⟩, hkind, hkind', hlike, hflags, _⟩ := id hrule
      have hshape : entry.shape? = some s := Term.shape?_of_kind hkind
      have hshape' : entry'.shape? = some t := Term.shape?_of_kind hkind'
      rw [hi, hj]
      simp only
      rw [hkind, hkind', tokenText?, tokenText?]
      simp only
      rw [hshape, hshape']
      cases room with
      | zero => exact alike_fail nestingMessage
      | succ room =>
        have hinside := hlike (TreesAlike a b) _ _ fun i j hij =>
          ih room (Nat.lt_succ_self room) hij
        exact hinside.andThen fun trees trees' htrees =>
          alike_succeed (alike_ruleTrees hflags hrule.makesAlike htrees)

/-- Whole texts are matched alike. -/
theorem alike_matchDocument (h : BuiltGrammar.Alike R a b) :
    Matcher.Alike (TreesAlike a b) a.language.matchDocument b.language.matchDocument := by
  have hroot := alike_matchTerm h b.language.lexicon nestingLimit h.root
  unfold matchDocument
  simp only
  rw [h.lexicon]
  refine hroot.andThen fun trees trees' htrees => ?_
  refine (alike_refl (trivia b.language.lexicon.comments)).andThen fun skipped _ hskipped => ?_
  subst hskipped
  refine (alike_refl atEnd).andThen fun _ _ _ => ?_
  exact alike_succeed (.document (List.rel_append htrees (alike_triviaTokens skipped)))

end Language

/-- Two parses are alike if they have the same errors, and like trees. -/
structure Parse.Alike (T : Tree → Tree → Prop) (a b : Parse) : Prop where
  errors : a.errors = b.errors
  tree : Option.Rel T a.tree b.tree

namespace BuiltGrammar

variable {R : TermIndex → TermIndex → Prop} {a b : BuiltGrammar}

/-- **Likeness of parses.**  Like grammars accept the same texts with like trees, and report the
same errors about others. -/
theorem Alike.parse? (h : BuiltGrammar.Alike R a b) (text : String) :
    Option.Rel (Parse.Alike (TreesAlike a b)) (a.language.parse? text)
      (b.language.parse? text) := by
  have hdocument := Language.alike_matchDocument h (Cursor.start text.toList)
  unfold Language.parse?
  generalize a.language.matchDocument (Cursor.start text.toList) = outcome,
    b.language.matchDocument (Cursor.start text.toList) = outcome' at hdocument
  cases hdocument with
  | matched htree => exact .some ⟨rfl, .some htree⟩
  | failed => exact .some ⟨rfl, .none⟩
  | stalled => exact .none

end BuiltGrammar

/-! ## Reading -/

namespace BuiltGrammar

variable {R : TermIndex → TermIndex → Prop} {a b built : BuiltGrammar} {i j : TermIndex}
  {tree tree' : Tree} {trees trees' : List Tree} {depth offset : ℕ} (text source : String)

/-- A term and its maker are those of its entry. -/
theorem Has.reading {index : TermIndex} {entry : Entry} (h : built.Has index entry) :
    (built.reading text source).term (.term index) = .ok entry.toTerm ∧
      (built.reading text source).maker? (.term index) = entry.maker :=
  ⟨Reading.term_of_term? h.1, Reading.maker?_term h.2⟩

/-- A kind that stands for no term is refused. -/
theorem term_reading_of_term? {kind : TreeKind} (hkind : kind.term? = none) :
    (built.reading text source).term kind = .error (.invalidState
      s!"tree kind SyntaxKind({kind.number}) is not a term of `{built.language.name}`") := by
  unfold Reading.term Language.termFor?
  rw [hkind]
  rfl

/-- Like trees stand for terms that resemble each other, or both are refused. -/
theorem term_kind_alike (hname : a.language.name = b.language.name)
    (htree : TreesAlike a b tree tree') :
    (∃ term term', (a.reading text source).term tree.kind = .ok term ∧
      (b.reading text source).term tree'.kind = .ok term' ∧ term.Resembles term') ∨
    ∃ e, (a.reading text source).term tree.kind = .error e ∧
      (b.reading text source).term tree'.kind = .error e := by
  cases htree with
  | trivia =>
    exact Or.inr ⟨_, term_reading_of_term? text source rfl,
      hname ▸ term_reading_of_term? text source rfl⟩
  | token hshares =>
    obtain ⟨entry, hi, hj, _⟩ := hshares
    exact Or.inl ⟨_, _, (hi.reading text source).1, (hj.reading text source).1, .refl _⟩
  | node hshares _ =>
    obtain ⟨entry, entry', s, t, hi, hj, hkind, hkind', hflags, _⟩ := hshares
    exact Or.inl ⟨_, _, (hi.reading text source).1, (hj.reading text source).1,
      Term.resembles_of_kind hkind hkind' hflags⟩
  | document _ =>
    exact Or.inr ⟨_, term_reading_of_term? text source rfl,
      hname ▸ term_reading_of_term? text source rfl⟩

/-- Two results are the same error, or parts that resemble each other. -/
inductive PartsAlike : Except Error (List Part) → Except Error (List Part) → Prop
  | ok {ps qs : List Part} : List.Forall₂ Part.Resembles ps qs → PartsAlike (.ok ps) (.ok qs)
  | error (e : Error) : PartsAlike (.error e) (.error e)

/-- If like trees have the same nodes, then rows of like trees are parts that resemble
each other. -/
theorem parts_alike_of (hname : a.language.name = b.language.name)
    (htrees : List.Forall₂ (TreesAlike a b) trees trees')
    (heach : ∀ tree ∈ trees, ∀ tree' depth offset, TreesAlike a b tree tree' →
      (a.reading text source).node depth offset tree =
        (b.reading text source).node depth offset tree') (depth offset : ℕ) :
    PartsAlike ((a.reading text source).parts depth offset trees)
      ((b.reading text source).parts depth offset trees') := by
  induction htrees generalizing offset with
  | nil => exact .ok .nil
  | @cons tree tree' rest rest' hfirst _ ih =>
    rw [List.forall_mem_cons] at heach
    have hrest := ih heach.2 (offset + tree.byteLength)
    rw [Reading.parts, Reading.parts, ← hfirst.isTrivia_eq, ← hfirst.byteLength_eq]
    split
    · exact hrest
    · rw [← heach.1 tree' depth offset hfirst]
      rcases term_kind_alike text source hname hfirst with
        ⟨term, term', hterm, hterm', hresembles⟩ | ⟨e, hterm, hterm'⟩
      · rw [hterm, hterm']
        cases (a.reading text source).node depth offset tree with
        | error e => exact .error e
        | ok made =>
          simp only [bind, Except.bind]
          generalize (a.reading text source).parts depth (offset + tree.byteLength) rest = first,
            (b.reading text source).parts depth (offset + tree.byteLength) rest' = second at hrest
          cases hrest with
          | error e => exact .error e
          | ok hparts => exact .ok (.cons ⟨hresembles, rfl⟩ hparts)
      · rw [hterm, hterm']
        exact .error e

/-- The nodes of like rules are made alike. -/
theorem ruleNode_eq (hshares : MakesAlike a b i j) {o o' : Occurrence} (h : o.Resembles o') :
    (a.reading text source).ruleNode (.term i) o = (b.reading text source).ruleNode (.term j) o' := by
  obtain ⟨entry, entry', s, t, hi, hj, _, _, _, hmaker, hignores⟩ := hshares
  unfold Reading.ruleNode
  rw [(hi.reading text source).2, (hj.reading text source).2, ← hmaker]
  cases hfound : entry.maker with
  | none => exact Maker.ignoresNames_sequence o o' h
  | some maker => exact hignores maker hfound o o' h

/-- Trees that are alike are located alike. -/
theorem locateTree_eq (htree : TreesAlike a b tree tree') (offset : ℕ) :
    (a.reading text source).locateTree offset tree =
      (b.reading text source).locateTree offset tree' := by
  unfold Reading.locateTree
  rw [htree.firstToken?_eq, htree.byteLength_eq]
  rfl

/-- The same token of like terms has the same node. -/
theorem tokenNode_eq (hshares : SharesTerm a b i j) (offset : ℕ) (raw : String) :
    (a.reading text source).tokenNode (.term i) offset raw =
      (b.reading text source).tokenNode (.term j) offset raw := by
  obtain ⟨entry, hi, hj, _⟩ := hshares
  unfold Reading.tokenNode
  rw [(hi.reading text source).1, (hj.reading text source).1, (hi.reading text source).2,
    (hj.reading text source).2]
  rfl

/-- A node whose kind stands for no term is refused. -/
theorem node_eq_error {kind : TreeKind} {children : List Tree} (hkind : kind.term? = none) :
    (built.reading text source).node depth offset (.node kind children) = .error (.invalidState
      s!"tree kind SyntaxKind({kind.number}) is not a term of `{built.language.name}`") := by
  rw [Reading.node, term_reading_of_term? text source hkind]
  rfl

/-- **Likeness of nodes.**  Like trees have the same nodes. -/
theorem node_alike (hname : a.language.name = b.language.name)
    (htree : TreesAlike a b tree tree') (depth offset : ℕ) :
    (a.reading text source).node depth offset tree =
      (b.reading text source).node depth offset tree' := by
  induction tree generalizing tree' depth offset with
  | token kind raw =>
    rw [Reading.node]
    cases htree with
    | trivia =>
      rw [Reading.node]
      unfold Reading.tokenNode
      rw [term_reading_of_term? text source rfl, term_reading_of_term? text source rfl, hname]
      rfl
    | token hshares =>
      rw [Reading.node]
      exact tokenNode_eq text source hshares offset raw
  | node kind children ih =>
    cases htree with
    | document _ => rw [node_eq_error text source rfl, node_eq_error text source rfl, hname]
    | @node i j _ children' hshares hchildren =>
      have hlocation := locateTree_eq text source (.node hshares hchildren) offset
      have hparts := parts_alike_of text source hname hchildren
        (fun t ht t' depth offset hlike => ih t ht hlike depth offset) (depth + 1) offset
      obtain ⟨entry, entry', s, t, hi, hj, hkind, hkind', hflags, _⟩ := id hshares
      have hresembles : entry.toTerm.Resembles entry'.toTerm :=
        Term.resembles_of_kind hkind hkind' hflags
      rw [Reading.node, Reading.node, (hi.reading text source).1, (hj.reading text source).1]
      simp only [bind, Except.bind]
      rw [hflags, hlocation]
      split
      · rfl
      · split
        · rfl
        · generalize (a.reading text source).parts (depth + 1) offset children = first,
            (b.reading text source).parts (depth + 1) offset children' = second at hparts
          cases hparts with
          | error e => rfl
          | ok hparts =>
            -- The locations are the same, so both makers get occurrences that resemble each other.
            have hoccurrence : Occurrence.Resembles
                ⟨entry.toTerm, (b.reading text source).locateTree offset
                  (.node (.term j) children'), none, _⟩
                ⟨entry'.toTerm, (b.reading text source).locateTree offset
                  (.node (.term j) children'), none, _⟩ := ⟨hresembles, rfl, rfl, hparts⟩
            simp only [pure, Except.pure]
            rw [ruleNode_eq text source hshares hoccurrence]

/-- Rows of like trees are parts that resemble each other. -/
theorem parts_alike (hname : a.language.name = b.language.name)
    (htrees : List.Forall₂ (TreesAlike a b) trees trees') (depth offset : ℕ) :
    PartsAlike ((a.reading text source).parts depth offset trees)
      ((b.reading text source).parts depth offset trees') :=
  parts_alike_of text source hname htrees
    (fun _ _ _ depth offset htree => node_alike text source hname htree depth offset) depth offset

/-- The first nodes of rows of like trees are alike and at the same place. -/
theorem firstNode?_alike (htrees : List.Forall₂ (TreesAlike a b) trees trees') (offset : ℕ) :
    Option.Rel (fun x y => x.1 = y.1 ∧ TreesAlike a b x.2 y.2) (Reading.firstNode? offset trees)
      (Reading.firstNode? offset trees') := by
  induction htrees generalizing offset with
  | nil => exact .none
  | cons hfirst _ ih =>
    cases hfirst with
    | trivia => exact ih _
    | token _ => exact ih _
    | node hshares hchildren => exact .some ⟨rfl, .node hshares hchildren⟩
    | document hchildren => exact .some ⟨rfl, .document hchildren⟩

/-- Like documents have the same root node. -/
theorem document_eq (hname : a.language.name = b.language.name)
    (htree : TreesAlike a b tree tree') :
    (a.reading text source).document tree = (b.reading text source).document tree' := by
  have hchildren : ∀ {kind kind' : TreeKind} {trees trees' : List Tree},
      List.Forall₂ (TreesAlike a b) trees trees' →
      (a.reading text source).document (.node kind trees) =
        (b.reading text source).document (.node kind' trees') := by
    intro kind kind' trees trees' htrees
    have hfirst := firstNode?_alike htrees 0
    simp only [Reading.document]
    generalize Reading.firstNode? 0 trees = found, Reading.firstNode? 0 trees' = found' at hfirst
    cases hfirst with
    | none => rfl
    | @some x y hxy =>
      obtain ⟨offset, root⟩ := x
      obtain ⟨offset', root'⟩ := y
      obtain ⟨rfl, hroot⟩ := hxy
      exact node_alike text source hname hroot 0 offset
  cases htree with
  | trivia => rfl
  | token _ => rfl
  | node _ htrees => exact hchildren htrees
  | document htrees => exact hchildren htrees

end BuiltGrammar

/-! ## Parsing -/

namespace Grammar

variable {R : TermIndex → TermIndex → Prop} {a b : BuiltGrammar} {first second : Grammar}

/-- **Likeness of grammars in use.**  Like grammars of one name, with the same root type, parse
every text alike: with the same root node, or the same error. -/
theorem parse_eq_of_alike (h : BuiltGrammar.Alike R a b) (hfirst : first.built = some a)
    (hsecond : second.built = some b) (hname : first.description.name = second.description.name)
    (hroot : first.isRoot = second.isRoot) (text source : String) (threshold : Severity) :
    first.parse text source threshold = second.parse text source threshold := by
  have hparse := h.parse? text
  unfold parse use
  rw [hfirst, hsecond]
  simp only [bind, Except.bind]
  generalize a.language.parse? text = parsed, b.language.parse? text = parsed' at hparse
  cases hparse with
  | none =>
    unfold endless
    rw [hname]
  | @some p q hpq =>
    obtain ⟨tree, errors⟩ := p
    obtain ⟨tree', errors'⟩ := q
    obtain ⟨herrors, htrees⟩ := hpq
    simp only at herrors htrees
    subst herrors
    cases htrees with
    | none => rfl
    | some htree =>
      simp only
      split
      · rfl
      · unfold rootNode
        have hdocument := BuiltGrammar.document_eq text source h.name htree
        unfold BuiltGrammar.reading at hdocument
        rw [hdocument, hroot]

end Grammar

/-! ## Drafts -/

/-- In like tables, the same was asked for. -/
theorem KeyTermTable.Alike.requests_eq {R : TermIndex → TermIndex → Prop} {a b : KeyTermTable}
    (h : KeyTermTable.Alike R a b) :
    a.records.toList.map KeyTerm.toKeyRequest = b.records.toList.map KeyTerm.toKeyRequest := by
  have hrecords : List.Forall₂ (KeyTerm.Alike R) a.records.toList b.records.toList := h
  generalize a.records.toList = as, b.records.toList = bs at hrecords
  induction hrecords with
  | nil => rfl
  | cons hkey _ ih => rw [List.map_cons, List.map_cons, hkey.request, ih]

/-- The texts of key terms are those of their requests. -/
theorem KeyTermTable.map_text (table : KeyTermTable) :
    table.records.toList.map (·.text) =
      (table.records.toList.map KeyTerm.toKeyRequest).map (·.text) :=
  List.map_map.symm

/-- The reserved words are known from the requests of key terms. -/
theorem KeyTermTable.reservedWords_eq (table : KeyTermTable) :
    table.reservedWords = ((table.records.toList.map KeyTerm.toKeyRequest).filter
      (·.flags.has .reserved)).map (·.text) := by
  rw [List.filter_map, List.map_map]
  rfl

/-- Drafts that are alike are completed into like grammars. -/
theorem Draft.Alike.complete {R : TermIndex → TermIndex → Prop} {a b : Draft} {i j : TermIndex}
    (h : Draft.Alike R a b) (name : String) (hij : R i j) (comments : List Comment) :
    BuiltGrammar.Alike R (a.complete name i comments) (b.complete name j comments) where
  name := rfl
  lexicon := by
    have hrequests := h.keyTerms.requests_eq
    have htexts : a.keyTerms.records.toList.map (·.text) =
        b.keyTerms.records.toList.map (·.text) := by
      rw [KeyTermTable.map_text, KeyTermTable.map_text, hrequests]
    have hreserved : a.keyTerms.reservedWords = b.keyTerms.reservedWords := by
      rw [KeyTermTable.reservedWords_eq, KeyTermTable.reservedWords_eq, hrequests]
    simp only [Language.lexicon, Language.symbols, Language.reserved, Draft.complete,
      Draft.toLanguage, htexts, hreserved]
  root := hij
  terms p q hpq := by
    obtain ⟨entry, entry', hp, hq, hlike⟩ := h.entries p q hpq
    cases hlike with
    | same hshape =>
      exact Or.inl ⟨entry, ⟨term?_of_entry hp, makers_of_entry hp⟩,
        ⟨term?_of_entry hq, makers_of_entry hq⟩, hshape⟩
    | rule hkind hkind' hlike hflags hmaker hignores =>
      exact Or.inr ⟨entry, entry', _, _, ⟨term?_of_entry hp, makers_of_entry hp⟩,
        ⟨term?_of_entry hq, makers_of_entry hq⟩, hkind, hkind', hlike, hflags, hmaker, hignores⟩

end TypedGrammar
