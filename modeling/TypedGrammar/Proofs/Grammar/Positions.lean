import Mathlib.Data.List.Forall2
import TypedGrammar.Proofs.Derivation.Conformity
import TypedGrammar.Proofs.Grammar.Parsing
import TypedGrammar.Proofs.Grammar.Yields

/-!
# Positions

The parts of a tree to which reading comes, with the offset at which each one is read and the tokens
that stand before it.  In the tree of an accepted text, each of them is a token or the node of a
rule, whose children are what the shape of the rule derives.
-/

namespace TypedGrammar

namespace Tree

variable {offset : ℕ} {tree : Tree} {trees more : List Tree}

/-- Trees that follow each other, each with the offset at which it begins. -/
def placed (offset : ℕ) : List Tree → List (ℕ × Tree)
  | [] => []
  | tree :: rest => (offset, tree) :: placed (offset + tree.byteLength) rest

/-- The places of the trees that are not trivia. -/
def placedParts (offset : ℕ) (trees : List Tree) : List (ℕ × Tree) :=
  (placed offset trees).filter (!·.2.isTrivia)

theorem placedParts_cons_of_isTrivia (h : tree.isTrivia = true) :
    placedParts offset (tree :: trees) = placedParts (offset + tree.byteLength) trees :=
  List.filter_cons_of_neg (by simp [h])

theorem placedParts_cons (h : tree.isTrivia = false) :
    placedParts offset (tree :: trees) =
      (offset, tree) :: placedParts (offset + tree.byteLength) trees :=
  List.filter_cons_of_pos (by simp [h])

/-- A tree has its place behind those before it. -/
theorem mem_placed_iff {place : ℕ × Tree} :
    place ∈ placed offset trees ↔ ∃ front rest, trees = front ++ place.2 :: rest ∧
      place.1 = offset + byteLengthOfAll front := by
  induction trees generalizing offset with
  | nil => simp [placed]
  | cons tree rest ih =>
    rw [placed, List.mem_cons, ih]
    constructor
    · rintro (rfl | ⟨front, behind, rfl, hplace⟩)
      · exact ⟨[], rest, rfl, rfl⟩
      · refine ⟨tree :: front, behind, rfl, ?_⟩
        rw [hplace, byteLengthOfAll, Nat.add_assoc]
    · rintro ⟨front, behind, heq, hplace⟩
      rcases List.cons_eq_append_iff.mp heq with ⟨rfl, hcons⟩ | ⟨front, rfl, rfl⟩
      · obtain ⟨htree, _⟩ := List.cons.inj hcons
        exact Or.inl (Prod.ext hplace htree)
      · refine Or.inr ⟨front, behind, rfl, ?_⟩
        rw [hplace, byteLengthOfAll, Nat.add_assoc]

theorem mem_placedParts_iff {place : ℕ × Tree} :
    place ∈ placedParts offset trees ↔ (∃ front rest, trees = front ++ place.2 :: rest ∧
      place.1 = offset + byteLengthOfAll front) ∧ place.2.isTrivia = false := by
  rw [placedParts, List.mem_filter, mem_placed_iff, Bool.not_eq_true']

/-- The kinds of the parts, by their places. -/
theorem map_kind_placedParts (offset : ℕ) (trees : List Tree) :
    (placedParts offset trees).map (·.2.kind) = partKinds trees := by
  induction trees generalizing offset with
  | nil => rfl
  | cons tree rest ih =>
    cases htrivia : tree.isTrivia with
    | true =>
      rw [placedParts_cons_of_isTrivia htrivia, ih, partKinds, partKinds,
        List.filter_cons_of_neg (by simp [htrivia])]
    | false =>
      rw [placedParts_cons htrivia, List.map_cons, ih, partKinds, partKinds,
        List.filter_cons_of_pos (by simp [htrivia]), List.map_cons]

end Tree

namespace Language

variable {language : Language} {room : ℕ} {shapes : List Shape} {start stop : Cursor}
  {trees : List Tree}

/-- A tree as it is derived: trivia, the token of a terminal, or the node of a rule, above what the
shape of the rule derives. -/
inductive IsDerived (language : Language) : Tree → Prop
  | trivia {text} : IsDerived language (.token .trivia text)
  | token {index term text} : language.term? index = some term → term.isTerminal = true →
      IsDerived language (.token (.term index) text)
  | node {index term shape children below start stop} :
      language.Defines index term shape → term.flags.has .transient = false →
      language.Derives below [shape] start children stop →
      IsDerived language (.node (.term index) children)

theorem Derives.isDerived (h : language.Derives room shapes start trees stop) :
    ∀ tree ∈ trees, language.IsDerived tree :=
  h.each (P := fun _ => language.IsDerived) (fun _ _ h => h) (fun _ _ => .trivia)
    (fun _ _ _ _ _ _ _ hterm htoken _ => .token hterm (isTerminal_of_tokenText? htoken))
    fun _ _ _ _ _ _ _ hdef hnode hchildren _ => .node hdef hnode hchildren

/-- What is below the document of an accepted text is derived. -/
theorem isDerived_of_parse? {text : String} {parse : Parse} {kind : TreeKind}
    {children : List Tree} (h : language.parse? text = some parse)
    (htree : parse.tree = some (.node kind children)) :
    ∀ tree ∈ children, language.IsDerived tree := by
  obtain ⟨trees, middle, stop, htrees, _, _, hdocument⟩ := derives_of_parse? h htree
  injection hdocument with _ hchildren
  subst hchildren
  intro tree hmem
  rcases List.mem_append.mp hmem with hmem | hmem
  · exact htrees.isDerived tree hmem
  · obtain ⟨text, rfl⟩ := mem_skipped hmem
    exact .trivia

end Language

namespace Reading

open TypedGrammar.Tree

variable {reading : Reading} {document sub child tree : Tree} {trees front rest : List Tree}
  {depth offset : ℕ} {before : List Token} {parts : List Part} {kind : TreeKind}
  {children : List Tree} {made : Option Node}

/-- What is read of trees that follow each other are their parts, at their places. -/
theorem forall₂_of_parts (h : reading.parts depth offset trees = .ok parts) :
    List.Forall₂ (fun place part => reading.term place.2.kind = .ok part.term ∧
      reading.node depth place.1 place.2 = .ok part.node) (placedParts offset trees) parts := by
  induction trees generalizing offset parts with
  | nil =>
    rw [Reading.parts] at h
    rw [← Except.ok.inj h]
    exact .nil
  | cons tree rest ih =>
    cases htrivia : tree.isTrivia with
    | true =>
      rw [Reading.parts, if_pos htrivia] at h
      rw [placedParts_cons_of_isTrivia htrivia]
      exact ih h
    | false =>
      obtain ⟨part, others, hterm, hnode, hothers, rfl⟩ := parts_cons_ok htrivia h
      rw [placedParts_cons htrivia]
      exact .cons ⟨hterm, hnode⟩ (ih hothers)

/-- **Positions.**  In a document, reading comes to a part at a depth and an offset, with tokens
before it: first to the node of the root, and from the node of a rule that is shown to all parts
below it. -/
inductive Visits (reading : Reading) : Tree → ℕ → ℕ → List Token → Tree → Prop
  | root {kind front inner children rest} :
      (∀ tree ∈ front, ∃ kind text, tree = .token kind text) →
      Visits reading (.node kind (front ++ .node inner children :: rest)) 0 (byteLengthOfAll front)
        (tokensOfAll front) (.node inner children)
  | part {document depth offset before kind front child rest term} :
      Visits reading document depth offset before (.node kind (front ++ child :: rest)) →
      reading.term kind = .ok term → term.flags.has .noNode = false → child.isTrivia = false →
      Visits reading document (depth + 1) (offset + byteLengthOfAll front)
        (before ++ tokensOfAll front) child

theorem exists_of_firstNode? {found : ℕ} (h : firstNode? offset trees = some (found, sub)) :
    ∃ front kind children rest, trees = front ++ .node kind children :: rest ∧
      (∀ tree ∈ front, ∃ kind text, tree = .token kind text) ∧
        found = offset + byteLengthOfAll front ∧ sub = .node kind children := by
  induction trees generalizing offset with
  | nil => cases h
  | cons tree others ih =>
    cases tree with
    | token kind text =>
      obtain ⟨front, inner, children, rest, rfl, hfront, hfound, hsub⟩ := ih h
      refine ⟨.token kind text :: front, inner, children, rest, rfl, ?_, ?_, hsub⟩
      · exact List.forall_mem_cons.mpr ⟨⟨kind, text, rfl⟩, hfront⟩
      · rw [hfound, byteLengthOfAll, byteLength, Nat.add_assoc]
    | node kind children =>
      obtain ⟨rfl, rfl⟩ := Prod.mk.inj (Option.some.inj h)
      exact ⟨[], kind, children, others, rfl, List.forall_mem_nil _, rfl, rfl⟩

/-- A rule that is shown and was read has parts. -/
theorem parts_of_node {term : Term} (hterm : reading.term kind = .ok term)
    (hnode : term.flags.has .noNode = false)
    (h : reading.node depth offset (.node kind children) = .ok made) :
    ∃ parts node, reading.parts (depth + 1) offset children = .ok parts ∧
      reading.ruleNode kind
        ⟨term, reading.locateTree offset (.node kind children), none, parts⟩ = .ok node ∧
          made = some node := by
  rw [Reading.node] at h
  obtain ⟨found, hfound, h⟩ := bind_eq_ok h
  obtain rfl := Except.ok.inj (hterm.symm.trans hfound)
  rw [if_neg (by rw [hnode]; exact Bool.false_ne_true)] at h
  split at h
  · cases h
  · obtain ⟨parts, hparts, h⟩ := bind_eq_ok h
    obtain ⟨node, hruleNode, h⟩ := bind_eq_ok h
    exact ⟨parts, node, hparts, hruleNode, (Except.ok.inj h).symm⟩

/-- A rule has a node only if it is shown. -/
theorem shown_of_node {term : Term} {node : Node} (hterm : reading.term kind = .ok term)
    (h : reading.node depth offset (.node kind children) = .ok (some node)) :
    term.flags.has .noNode = false := by
  by_contra hhidden
  rw [Bool.not_eq_false] at hhidden
  rw [Reading.node] at h
  obtain ⟨found, hfound, h⟩ := bind_eq_ok h
  obtain rfl := Except.ok.inj (hterm.symm.trans hfound)
  rw [if_pos hhidden] at h
  cases h

/-- **What makers are given.**  Where a tree is read at a depth and an offset, the maker of its term
is given an occurrence: that of a token, unless the token is punctuation or has no node, or that of
a rule that is shown, with the parts that were read below it. -/
inductive Hands (reading : Reading) (depth offset : ℕ) : Tree → Occurrence → Prop
  | token {kind text term maker} :
      reading.term kind = .ok term → term.flags.has .punctuation = false →
      term.flags.has .noNode = false → reading.maker? kind = some maker →
      Hands reading depth offset (.token kind text) ⟨term, reading.locate offset, some text, []⟩
  | rule {kind children term parts} :
      reading.term kind = .ok term → term.flags.has .noNode = false → depth ≤ nestingLimit →
      reading.parts (depth + 1) offset children = .ok parts →
      Hands reading depth offset (.node kind children)
        ⟨term, reading.locateTree offset (.node kind children), none, parts⟩

/-- What is read is what the maker makes of the occurrence that it is given. -/
theorem Hands.node_eq {occurrence : Occurrence} (h : reading.Hands depth offset tree occurrence) :
    reading.node depth offset tree =
      (((reading.maker? tree.kind).getD .sequence).make occurrence).map some := by
  cases h with
  | token hterm hpunctuation hnode hmaker =>
    rw [Reading.node, tokenNode, hterm, Tree.kind, hmaker]
    show (if _ || _ then _ else _) = _
    rw [hpunctuation, hnode]
    rfl
  | rule hterm hnode hdepth hparts =>
    rw [node_eq hterm hnode hdepth, hparts]
    rfl

/-- Each node is made by the maker of its term from an occurrence that it is given. -/
theorem exists_hands_of_node {node : Node} (h : reading.node depth offset tree = .ok (some node)) :
    ∃ occurrence, reading.Hands depth offset tree occurrence ∧
      ((reading.maker? tree.kind).getD .sequence).make occurrence = .ok node := by
  have hands : ∃ occurrence, reading.Hands depth offset tree occurrence := by
    cases tree with
    | token kind text =>
      rw [Reading.node, tokenNode] at h
      obtain ⟨term, hterm, h⟩ := bind_eq_ok h
      split at h
      · cases h
      · next hshown =>
        rw [Bool.not_eq_true, Bool.or_eq_false_iff] at hshown
        split at h
        · next maker hmaker => exact ⟨_, .token hterm hshown.1 hshown.2 hmaker⟩
        · cases h
    | node kind children =>
      rw [Reading.node] at h
      obtain ⟨term, hterm, h⟩ := bind_eq_ok h
      split at h
      · cases h
      · next hshown =>
        split at h
        · cases h
        · next hdepth =>
          obtain ⟨parts, hparts, _⟩ := bind_eq_ok h
          exact ⟨_, .rule hterm (Bool.eq_false_iff.mpr hshown) (Nat.le_of_not_lt hdepth) hparts⟩
  obtain ⟨occurrence, hands⟩ := hands
  refine ⟨occurrence, hands, ?_⟩
  rw [hands.node_eq] at h
  obtain ⟨made, hmade, hsome⟩ := map_eq_ok h
  rw [hmade, Option.some.inj hsome]

/-- The tokens of a document are those before a part, those of the part and those behind it. -/
theorem Visits.tokens_eq (h : reading.Visits document depth offset before sub) :
    ∃ behind, document.tokens = before ++ sub.tokens ++ behind := by
  induction h with
  | @root kind front inner children rest _ =>
    refine ⟨tokensOfAll rest, ?_⟩
    rw [tokens, tokensOfAll_append, tokensOfAll, List.append_assoc]
  | @part _ _ _ before _ front child rest _ _ _ _ _ ih =>
    obtain ⟨behind, hbehind⟩ := ih
    refine ⟨tokensOfAll rest ++ behind, ?_⟩
    rw [hbehind, tokens, tokensOfAll_append, tokensOfAll]
    simp only [List.append_assoc]

/-- A part is read at the offset to which the texts of the tokens before it lead. -/
theorem Visits.offset_eq (h : reading.Visits document depth offset before sub) :
    offset = (String.join (before.map Token.text)).utf8ByteSize := by
  induction h with
  | root _ => exact byteLengthOfAll_eq _
  | part _ _ _ _ ih =>
    rw [ih, byteLengthOfAll_eq, List.map_append, String.join_append, String.utf8ByteSize_append]

/-- In the tree of an accepted text, reading comes to what is derived, and never to trivia. -/
theorem Visits.isDerived {text : String} {parse : Parse}
    (hparse : reading.language.parse? text = some parse) (htree : parse.tree = some document)
    (h : reading.Visits document depth offset before sub) :
    reading.language.IsDerived sub ∧ sub.isTrivia = false := by
  induction h with
  | root _ =>
    have hderived := Language.isDerived_of_parse? hparse htree _
      (List.mem_append_right _ List.mem_cons_self)
    refine ⟨hderived, ?_⟩
    cases hderived
    rfl
  | part _ _ _ htrivia ih =>
    obtain ⟨hderived, _⟩ := ih htree
    cases hderived with
    | node _ _ hchildren =>
      exact ⟨hchildren.isDerived _ (List.mem_append_right _ List.mem_cons_self), htrivia⟩

end Reading

end TypedGrammar
