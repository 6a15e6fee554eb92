import TypedGrammar.Proofs.Draft.Symbols
import TypedGrammar.Proofs.Grammar.Brackets
import TypedGrammar.Proofs.Grammar.Lists
import TypedGrammar.Proofs.Tree.Paths

/-!
# Groups

The item of a list and the inside of a brace are grouped, so that each of their matches is one part
of the list or the brace.  A shape that is one term is left as it is, also if the term is transient;
then its matches are as many parts as the shape of its rule has.
-/

namespace TypedGrammar

open TypedGrammar.Tree

namespace Language

variable {language : Language} {room : ℕ} {shape item : Shape} {shapes : List Shape}
  {start stop : Cursor} {trees piece : List Tree} {kinds : List TreeKind} {index : TermIndex}
  {tree sub : Tree} {path : List ℕ} {text : String} {parse : Parse}

/-! ## Matches -/

/-- Some trees are a match of a shape: it derives them somewhere in a text. -/
def Matches (language : Language) (shape : Shape) (trees : List Tree) : Prop :=
  ∃ room start stop, language.Derives room [shape] start trees stop

/-- Shapes that follow each other have their matches one after the other. -/
theorem Derives.exists_pieces (h : language.Derives room shapes start trees stop) :
    ∃ pieces, trees = pieces.flatten ∧ List.Forall₂ language.Matches shapes pieces := by
  induction shapes generalizing start trees with
  | nil =>
    cases h
    exact ⟨[], rfl, .nil⟩
  | cons shape rest ih =>
    have hcons : language.Derives room ([shape] ++ rest) start trees stop := h
    obtain ⟨first, middle, more, hfirst, hmore, rfl⟩ := hcons.of_append
    obtain ⟨pieces, rfl, hpieces⟩ := ih hmore
    exact ⟨first :: pieces, rfl, .cons ⟨room, start, middle, hfirst⟩ hpieces⟩

/-- What is derived from a shape other than a term is derived from what the shape stands for. -/
theorem Derives.exists_unfolds (hterm : shape.term? = none)
    (h : language.Derives room [shape] start trees stop) :
    ∃ shapes, shape.Unfolds shapes ∧ language.Derives room shapes start trees stop := by
  cases h with
  | unfold hunfolds hrest =>
    rw [List.append_nil] at hrest
    exact ⟨_, hunfolds, hrest⟩
  | token => cases hterm
  | rule => cases hterm

/-- A match of an alternative of a shape is a match of the shape. -/
theorem Matches.of_mem_alternatives (h : language.Matches item trees)
    (hmem : item ∈ shape.alternatives) : language.Matches shape trees := by
  obtain ⟨room, start, stop, hderives⟩ := h
  cases shape with
  | choice alternatives => exact ⟨room, start, stop, .single (.alternative hmem) hderives⟩
  | _ =>
    obtain rfl := List.mem_singleton.mp hmem
    exact ⟨room, start, stop, hderives⟩

/-- **Single parts.**  A term that is not transient is one part; a transient one is what its rule
has; and a choice is one part if all its alternatives are, and it has any. -/
inductive IsSingle (language : Language) : Shape → Prop
  | part {index : TermIndex} : language.IsPart index → IsSingle language (.term index)
  | spliced {index : TermIndex} {term : Term} {shape : Shape} :
      language.Defines index term shape → IsSingle language shape → IsSingle language (.term index)
  | choice {alternatives : List Shape} :
      alternatives ≠ [] → (∀ s ∈ alternatives, IsSingle language s) →
      IsSingle language (.choice alternatives)

/-- What is written as a single part is one kind. -/
theorem IsSingle.exists_kind (h : language.IsSingle shape) (hword : language.Word [shape] kinds) :
    ∃ kind, kinds = [kind] := by
  induction h generalizing kinds with
  | @part index hpart =>
    have hparts : ∀ i ∈ [index], language.IsPart i := List.forall_mem_singleton.mpr hpart
    exact ⟨.term index, Word.eq_of_isPart hparts hword⟩
  | @spliced index term shape hdef _ ih =>
    cases hword with
    | unfold hunfolds _ => cases hunfolds
    | terminal _ _ hrest | rule _ _ hrest =>
      cases hrest
      exact ⟨_, rfl⟩
    | spliced hdef' _ hinner hrest =>
      cases hrest
      obtain rfl := Option.some.inj (hdef.1.symm.trans hdef'.1)
      have hshape := hdef.2.symm.trans hdef'.2
      injection hshape with hshape
      obtain rfl := Option.some.inj hshape
      rw [List.append_nil]
      exact ih hinner
  | choice hne _ ih =>
    obtain ⟨shapes, hunfolds, hshapes⟩ := hword.exists_unfolds rfl
    cases hunfolds with
    | noAlternative => exact absurd rfl hne
    | alternative hmem => exact ih _ hmem hshapes

/-- **One part.**  Each match of a shape that is a single part has one part. -/
theorem IsSingle.exists_partKinds (h : language.IsSingle shape)
    (hmatches : language.Matches shape trees) : ∃ kind, partKinds trees = [kind] := by
  obtain ⟨_, _, _, hderives⟩ := hmatches
  exact h.exists_kind hderives.word

/-- Each match of a shape that is a single part counts as one part. -/
theorem IsSingle.length_partKinds (h : language.IsSingle shape)
    (hmatches : language.Matches shape trees) : (partKinds trees).length = 1 := by
  obtain ⟨kind, hkinds⟩ := h.exists_partKinds hmatches
  rw [hkinds]
  rfl

/-- Matches of one part each are as many parts as matches. -/
theorem length_partKinds_flatten {pieces : List (List Tree)}
    (h : ∀ piece ∈ pieces, (partKinds piece).length = 1) :
    (partKinds pieces.flatten).length = pieces.length := by
  induction pieces with
  | nil => rfl
  | cons piece rest ih =>
    obtain ⟨hpiece, hrest⟩ := List.forall_mem_cons.mp h
    rw [List.flatten_cons, partKinds_append, List.length_append, hpiece, ih hrest,
      List.length_cons, Nat.add_comm]

/-! ## Parts of accepted trees -/

/-- Whatever is below what is derived is derived. -/
theorem IsDerived.at? (h : language.IsDerived tree) (hat : tree.at? path = some sub) :
    language.IsDerived sub := by
  induction path generalizing tree with
  | nil =>
    rw [Tree.at?] at hat
    exact Option.some.inj hat ▸ h
  | cons number path ih =>
    cases h with
    | trivia | token => cases hat
    | node _ _ hchildren =>
      obtain ⟨child, hchild, hat⟩ := Option.bind_eq_some_iff.mp hat
      exact ih (hchildren.isDerived child (List.mem_of_getElem? hchild)) hat

/-- All nodes of rules in the tree of an accepted text are derived. -/
theorem isDerived_of_at? {children : List Tree} (hparse : language.parse? text = some parse)
    (htree : parse.tree = some tree) (hat : tree.at? path = some (.node (.term index) children)) :
    language.IsDerived (.node (.term index) children) := by
  obtain ⟨trees, middle, stop, _, _, _, rfl⟩ := derives_of_parse? hparse htree
  cases path with
  | nil => cases hat
  | cons number path =>
    obtain ⟨child, hchild, hat⟩ := Option.bind_eq_some_iff.mp hat
    exact (isDerived_of_parse? hparse htree child (List.mem_of_getElem? hchild)).at? hat

end Language

namespace Reading

variable {reading : Reading} {depth offset : ℕ} {trees : List Tree} {parts : List Part}
  {kind : TreeKind}

/-- There are as many parts as trees that are not trivia. -/
theorem length_of_parts (h : reading.parts depth offset trees = .ok parts) :
    parts.length = (partKinds trees).length := by
  rw [← (forall₂_of_parts h).length_eq, ← map_kind_placedParts offset, List.length_map]

/-- A single tree that is not trivia is a single part. -/
theorem exists_part_of_parts (hkinds : partKinds trees = [kind])
    (h : reading.parts depth offset trees = .ok parts) :
    ∃ part, parts = [part] ∧ reading.term kind = .ok part.term := by
  have hrows := forall₂_of_parts h
  have hplaces := (map_kind_placedParts offset trees).trans hkinds
  obtain ⟨place, hplace, rfl⟩ := List.map_eq_singleton_iff.mp hplaces
  rw [hplace] at hrows
  cases hrows with
  | cons hrow hrest =>
    cases hrest
    exact ⟨_, rfl, hrow.1⟩

end Reading

/-! ## Lists and braces -/

namespace Draft

variable {draft : Draft} {shape item : Shape} {index root : TermIndex} {name : String}
  {comments : List Comment} {children : List Tree}

/-- What is grouped is a term. -/
theorem IsGrouped.exists_term (h : draft.IsGrouped shape item) : ∃ index, item = .term index := by
  rcases h with ⟨hterm, rfl⟩ | ⟨_, index, _, rfl⟩
  · cases item with
    | term index => exact ⟨index, rfl⟩
    | _ => cases hterm
  · exact ⟨index, rfl⟩

/-- The children of a list: matches of its item, with those of its delimiter between them. -/
theorem IsConsistent.exists_pieces_of_list {spec : ListSpec} (h : draft.IsConsistent)
    (hlist : draft.known? (.list spec) = some index)
    (hderived : (draft.complete name root comments).language.IsDerived
      (.node (.term index) children)) :
    ∃ item shapes pieces, draft.IsGrouped spec.item item ∧
      (Shape.repetition item spec.delimiter spec.bounds).Unfolds shapes ∧
      children = pieces.flatten ∧
      List.Forall₂ (draft.complete name root comments).language.Matches shapes pieces := by
  obtain ⟨entry, hentry, _, item, hitem, hkind⟩ := h.known _ _ hlist
  cases hderived with
  | node hdef _ hchildren =>
    obtain rfl := Option.some.inj ((term?_of_entry hentry).symm.trans hdef.1)
    obtain rfl := Option.some.inj (TermKind.rule.inj (hkind.symm.trans hdef.2))
    have hterm : (Shape.repetition item spec.delimiter spec.bounds).term? = none := by
      cases spec.delimiter <;> rfl
    obtain ⟨shapes, hunfolds, hshapes⟩ := hchildren.exists_unfolds hterm
    obtain ⟨pieces, hflatten, hpieces⟩ := hshapes.exists_pieces
    exact ⟨item, shapes, pieces, hitem, hunfolds, hflatten, hpieces⟩

/-- The children of a brace: a match of what is grouped between its symbols, or of the inside alone
where the symbols may be left out. -/
theorem IsConsistent.exists_pieces_of_braces {spec : BraceSpec} (h : draft.IsConsistent)
    (hbraces : draft.known? (.braces spec) = some index)
    (hderived : (draft.complete name root comments).language.IsDerived
      (.node (.term index) children)) :
    ∃ openIndex closeIndex item, draft.known? (.key spec.opening) = some openIndex ∧
      draft.known? (.key spec.closing) = some closeIndex ∧ draft.IsGrouped spec.inside item ∧
      ((∃ first middle last, children = first ++ middle ++ last ∧
          (draft.complete name root comments).language.Matches (.term openIndex) first ∧
          (draft.complete name root comments).language.Matches item middle ∧
          (draft.complete name root comments).language.Matches (.term closeIndex) last) ∨
        spec.omissible = true ∧
          (draft.complete name root comments).language.Matches spec.inside children) := by
  obtain ⟨entry, hentry, _, openIndex, closeIndex, item, hopen, hclose, hitem, hkind⟩ :=
    h.known _ _ hbraces
  refine ⟨openIndex, closeIndex, item, hopen, hclose, hitem, ?_⟩
  obtain ⟨inner, rfl⟩ := hitem.exists_term
  -- The symbols and the group are three items of a sequence.
  have hbracketed : Shape.term openIndex ++ Shape.term inner ++ Shape.term closeIndex =
      .sequence [.term openIndex, .term inner, .term closeIndex] := rfl
  have hsplit : ∀ room start stop, (draft.complete name root comments).language.Derives room
      [.sequence [.term openIndex, .term inner, .term closeIndex]] start children stop →
      ∃ first middle last, children = first ++ middle ++ last ∧
        (draft.complete name root comments).language.Matches (.term openIndex) first ∧
        (draft.complete name root comments).language.Matches (.term inner) middle ∧
        (draft.complete name root comments).language.Matches (.term closeIndex) last := by
    intro room start stop hderives
    obtain ⟨shapes, hunfolds, hshapes⟩ := hderives.exists_unfolds rfl
    cases hunfolds
    obtain ⟨pieces, rfl, hpieces⟩ := hshapes.exists_pieces
    obtain _ | ⟨hfirst, _ | ⟨hmiddle, _ | ⟨hlast, _ | _⟩⟩⟩ := hpieces
    exact ⟨_, _, _, by simp, hfirst, hmiddle, hlast⟩
  rw [hbracketed] at hkind
  cases hderived with
  | @node _ _ shape _ room start stop hdef _ hchildren =>
    obtain rfl := Option.some.inj ((term?_of_entry hentry).symm.trans hdef.1)
    obtain rfl := Option.some.inj (TermKind.rule.inj (hkind.symm.trans hdef.2))
    split at hchildren
    · next homissible =>
      obtain ⟨shapes, hunfolds, hshapes⟩ := hchildren.exists_unfolds rfl
      cases hunfolds with
      | alternative hmem =>
        rcases List.mem_cons.mp hmem with rfl | hmem
        · exact Or.inl (hsplit _ _ _ hshapes)
        · exact Or.inr ⟨homissible,
            Language.Matches.of_mem_alternatives ⟨_, _, _, hshapes⟩ hmem⟩
    · exact Or.inl (hsplit _ _ _ hchildren)

end Draft

namespace Reading

variable {reading : Reading} {depth offset : ℕ} {index openIndex closeIndex : TermIndex}
  {openTerm closeTerm : Term} {item : Shape} {first middle last : List Tree} {node : Node}

/-- The token of a terminal is one part of its kind. -/
theorem partKinds_of_key {term : Term} {text : String} {trees : List Tree}
    (hterm : reading.language.term? index = some term) (hkind : term.kind = .key text)
    (h : reading.language.Matches (.term index) trees) : partKinds trees = [.term index] := by
  obtain ⟨_, _, _, hderives⟩ := h
  have hpart : reading.language.IsPart index := by
    intro found shape hdef
    obtain rfl := Option.some.inj (hterm.symm.trans hdef.1)
    have hrule := hkind.symm.trans hdef.2
    cases hrule
  have hparts : ∀ i ∈ [index], reading.language.IsPart i := List.forall_mem_singleton.mpr hpart
  exact Language.Word.eq_of_isPart hparts hderives.word

/-- **Bracketed.**  A brace whose children are a match of a single part between its symbols has
three parts; its node has the texts of the symbols, and holds what was made of the part between
them. -/
theorem brace_of_matches {opening closing : String}
    (hmaker : reading.maker? (.term index) = some .brace)
    (hopen : reading.language.term? openIndex = some openTerm)
    (hopenKind : openTerm.kind = .key opening)
    (hopenFlag : openTerm.flags.has .openBrace = true)
    (hclose : reading.language.term? closeIndex = some closeTerm)
    (hcloseKind : closeTerm.kind = .key closing)
    (hcloseFlag : closeTerm.flags.has .closeBrace = true)
    (hitem : reading.language.IsSingle item)
    (hfirst : reading.language.Matches (.term openIndex) first)
    (hmiddle : reading.language.Matches item middle)
    (hlast : reading.language.Matches (.term closeIndex) last) :
    (partKinds (first ++ middle ++ last)).length = 3 ∧
      ∀ depth offset node, reading.node depth offset
          (.node (.term index) (first ++ middle ++ last)) = .ok (some node) →
        ∃ group, reading.parts (depth + 1) (offset + byteLengthOfAll first) middle = .ok [group] ∧
          node = .brace
            (reading.locateTree offset (.node (.term index) (first ++ middle ++ last)))
            (some opening) (some closing)
            (group.node.getD (Node.ofSequence
              (reading.locateTree offset (.node (.term index) (first ++ middle ++ last)))
              [])).soleOrSelf := by
  have hfirstKinds := partKinds_of_key hopen hopenKind hfirst
  have hlastKinds := partKinds_of_key hclose hcloseKind hlast
  obtain ⟨kind, hkinds⟩ := hitem.exists_partKinds hmiddle
  constructor
  · rw [partKinds_append, partKinds_append, hfirstKinds, hkinds, hlastKinds]
    rfl
  · intro depth offset node hnode
    have hterm : ∃ term, reading.term (.term index) = .ok term := by
      rw [Reading.node] at hnode
      obtain ⟨term, hterm, _⟩ := bind_eq_ok hnode
      exact ⟨term, hterm⟩
    obtain ⟨term, hterm⟩ := hterm
    obtain ⟨parts, made, hparts, hmade, hsame⟩ :=
      parts_of_node hterm (shown_of_node hterm hnode) hnode
    obtain rfl := Option.some.inj hsame
    obtain ⟨front, third, hfront, hthird, rfl⟩ := parts_append_ok hparts
    obtain ⟨opens, groups, hopens, hgroups, rfl⟩ := parts_append_ok hfront
    obtain ⟨openPart, rfl, hopenPart⟩ := exists_part_of_parts hfirstKinds hopens
    obtain ⟨group, rfl, _⟩ := exists_part_of_parts hkinds hgroups
    obtain ⟨closePart, rfl, hclosePart⟩ := exists_part_of_parts hlastKinds hthird
    obtain rfl := Except.ok.inj ((term_of_term? hopen).symm.trans hopenPart)
    obtain rfl := Except.ok.inj ((term_of_term? hclose).symm.trans hclosePart)
    refine ⟨group, hgroups, ?_⟩
    rw [ruleNode, hmaker] at hmade
    rw [← Except.ok.inj hmade, Occurrence.toBrace_of_symbols rfl hopenFlag hcloseFlag, Term.text?,
      hopenKind, Term.text?, hcloseKind]

end Reading

/-! ## Groups -/

namespace Draft

section

variable (draft : Draft) (reading : Reading) (index : TermIndex) (children : List Tree)

/-- **The children of a list.**  They are matches of what the item of the list is grouped as, with
those of its delimiter between them.  If the group is a single part, then each of its matches is
one part, and a list without delimiter has as many parts as matches. -/
structure ListsMatches (spec : ListSpec) (item : Shape) (shapes : List Shape)
    (pieces : List (List Tree)) : Prop where
  grouped : draft.IsGrouped spec.item item
  unfolds : (Shape.repetition item spec.delimiter spec.bounds).Unfolds shapes
  flatten_eq : children = pieces.flatten
  pieces_match : List.Forall₂ reading.language.Matches shapes pieces
  one_part : reading.language.IsSingle item →
    ∀ piece, reading.language.Matches item piece → (partKinds piece).length = 1
  only_items : spec.delimiter = none → ∀ shape ∈ shapes, shape = item
  length_eq : reading.language.IsSingle item → spec.delimiter = none →
    (partKinds children).length = pieces.length
  /-- The node of the list is made of one part for each match. -/
  made : reading.language.IsSingle item → spec.delimiter = none → ∀ depth offset node,
    reading.node depth offset (.node (.term index) children) = .ok (some node) →
    ∃ parts, reading.parts (depth + 1) offset children = .ok parts ∧
      parts.length = pieces.length ∧
      node = .ofList (reading.locateTree offset (.node (.term index) children)) spec.element
        (parts.filterMap (·.node))

/-- **The children of a brace.**  They are a match of what the inside is grouped as between matches
of the symbols, or one of the inside alone if the symbols may be left out.  If the group is a single
part, then each of its matches is one part; and if the symbols are still flagged as such, then a
brace with symbols has three parts. -/
structure BracesMatch (spec : BraceSpec) (openIndex closeIndex : TermIndex) (item : Shape) :
    Prop where
  opening : draft.known? (.key spec.opening) = some openIndex
  closing : draft.known? (.key spec.closing) = some closeIndex
  grouped : draft.IsGrouped spec.inside item
  children_match : (∃ first middle last, children = first ++ middle ++ last ∧
      reading.language.Matches (.term openIndex) first ∧
      reading.language.Matches item middle ∧
      reading.language.Matches (.term closeIndex) last) ∨
    spec.omissible = true ∧ reading.language.Matches spec.inside children
  one_part : reading.language.IsSingle item →
    ∀ piece, reading.language.Matches item piece → (partKinds piece).length = 1
  /-- The node of a brace with symbols has their texts, and holds what was made of the part between
  them. -/
  bracketed : reading.language.IsSingle item →
    (∀ term, reading.language.term? openIndex = some term →
      term.flags.has .openBrace = true) →
    (∀ term, reading.language.term? closeIndex = some term →
      term.flags.has .closeBrace = true) →
    ∀ first middle last, children = first ++ middle ++ last →
      reading.language.Matches (.term openIndex) first →
      reading.language.Matches item middle →
      reading.language.Matches (.term closeIndex) last →
      (partKinds children).length = 3 ∧ ∀ depth offset node,
        reading.node depth offset (.node (.term index) children) = .ok (some node) →
        ∃ group, reading.parts (depth + 1) (offset + byteLengthOfAll first) middle = .ok [group] ∧
          node = .brace (reading.locateTree offset (.node (.term index) children))
            (some spec.opening) (some spec.closing)
            (group.node.getD (Node.ofSequence
              (reading.locateTree offset (.node (.term index) children)) [])).soleOrSelf

end

variable {draft : Draft} {name text source : String} {root index : TermIndex}
  {comments : List Comment} {children : List Tree}

/-- A list that is registered describes the children of all its derived nodes. -/
theorem IsConsistent.exists_listsMatches {spec : ListSpec} (h : draft.IsConsistent)
    (hlist : draft.known? (.list spec) = some index)
    (hderived : (draft.complete name root comments).language.IsDerived
      (.node (.term index) children)) :
    ∃ item shapes pieces, draft.ListsMatches
      ((draft.complete name root comments).reading text source) index children spec item shapes
      pieces := by
  obtain ⟨item, shapes, pieces, hgrouped, hunfolds, rfl, hpieces⟩ :=
    h.exists_pieces_of_list hlist hderived
  have hshapes : spec.delimiter = none → ∀ shape ∈ shapes, shape = item := by
    intro hdelimiter
    rw [hdelimiter] at hunfolds
    cases hunfolds with
    | noItem => exact fun _ h => absurd h List.not_mem_nil
    | repeated n => exact List.forall_mem_cons.mpr ⟨rfl, fun _ h => List.eq_of_mem_replicate h⟩
  have hcount : (draft.complete name root comments).language.IsSingle item →
      spec.delimiter = none → (partKinds pieces.flatten).length = pieces.length := by
    intro hitem hdelimiter
    refine Language.length_partKinds_flatten fun piece hpiece => ?_
    obtain ⟨shape, hshape, hmatches⟩ := exists_of_forall₂_right hpieces hpiece
    exact hitem.length_partKinds (hshapes hdelimiter shape hshape ▸ hmatches)
  refine ⟨item, shapes, pieces, hgrouped, hunfolds, rfl, hpieces,
    fun hitem piece => hitem.length_partKinds, hshapes, hcount, ?_⟩
  intro hitem hdelimiter depth offset node hnode
  obtain ⟨entry, hentry, hmaker, _⟩ := h.known _ _ hlist
  have hterm : ((draft.complete name root comments).reading text source).term (.term index) =
      .ok entry.toTerm := Reading.term_of_term? (term?_of_entry hentry)
  obtain ⟨parts, made, hparts, hmade, hsame⟩ :=
    Reading.parts_of_node hterm (Reading.shown_of_node hterm hnode) hnode
  obtain rfl := Option.some.inj hsame
  rw [Reading.ruleNode, maker?_of_entry hentry, hmaker] at hmade
  exact ⟨parts, hparts, (Reading.length_of_parts hparts).trans (hcount hitem hdelimiter),
    (Except.ok.inj hmade).symm⟩

/-- Braces that are registered describe the children of all their derived nodes, if their symbols
are registered too. -/
theorem IsConsistent.exists_bracesMatch {events : List Event} {spec : BraceSpec}
    (h : draft.IsConsistent) (hkeys : TracksKeys events draft) (hsymbols : draft.HasSymbols spec)
    (hbraces : draft.known? (.braces spec) = some index)
    (hderived : (draft.complete name root comments).language.IsDerived
      (.node (.term index) children)) :
    ∃ openIndex closeIndex item, draft.BracesMatch
      ((draft.complete name root comments).reading text source) index children spec openIndex
      closeIndex item := by
  obtain ⟨openIndex, closeIndex, item, hopen, hclose, hgrouped, hchildren⟩ :=
    h.exists_pieces_of_braces hbraces hderived
  refine ⟨openIndex, closeIndex, item, hopen, hclose, hgrouped, hchildren,
    fun hitem piece => hitem.length_partKinds, ?_⟩
  intro hitem hopenFlag hcloseFlag first middle last hsplit hfirst hmiddle hlast
  subst hsplit
  obtain ⟨openTerm, hopenTerm, hopenKind⟩ := hkeys.term_of_hasKey hsymbols.1 hopen
  obtain ⟨closeTerm, hcloseTerm, hcloseKind⟩ := hkeys.term_of_hasKey hsymbols.2 hclose
  have hopenTerm' : (draft.complete name root comments).language.term? openIndex =
      some openTerm := term?_complete.trans hopenTerm
  have hcloseTerm' : (draft.complete name root comments).language.term? closeIndex =
      some closeTerm := term?_complete.trans hcloseTerm
  obtain ⟨entry, hentry, hmaker, _⟩ := h.known _ _ hbraces
  exact Reading.brace_of_matches ((maker?_of_entry hentry).trans hmaker) hopenTerm' hopenKind
    (hopenFlag _ hopenTerm') hcloseTerm' hcloseKind (hcloseFlag _ hcloseTerm') hitem hfirst hmiddle
    hlast

end Draft

section

variable {session : Session} {events : List Event} {name text source : String}
  {root index : TermIndex} {comments : List Comment} {built : BuiltGrammar} {parse : Parse}
  {tree : Tree} {path : List ℕ} {children : List Tree}

/-- **Groups.**  In the tree of an accepted text, all lists and all braces have children that match
their groups, one part for each match of a group that is a single part. -/
theorem grouping_of_at? (hrun : Session.Run .start events session)
    (hbuilt : built = session.draft.complete name root comments)
    (hparse : built.language.parse? text = some parse) (htree : parse.tree = some tree)
    (hat : tree.at? path = some (.node (.term index) children)) :
    (∀ spec, session.draft.known? (.list spec) = some index →
      ∃ item shapes pieces, session.draft.ListsMatches (built.reading text source) index children
        spec item shapes pieces) ∧
    ∀ spec, session.draft.known? (.braces spec) = some index →
      ∃ openIndex closeIndex item, session.draft.BracesMatch (built.reading text source) index
        children spec openIndex closeIndex item := by
  subst hbuilt
  obtain ⟨hsession, _⟩ := hrun.keeps Session.isConsistent_start
  have hderived := Language.isDerived_of_at? hparse htree hat
  constructor
  · intro spec hlist
    exact hsession.draft.exists_listsMatches hlist hderived
  · intro spec hbraces
    exact hsession.draft.exists_bracesMatch hrun.tracksKeys (hrun.hasSymbols hbraces) hbraces
      hderived

end

/-! ### Pairs of signs

A block is a pair of signs between brackets.  The node type of the pair is one term, so it is not
grouped; once its rule is known, it is spliced or not. -/

namespace SignPair

/-- The block is the first term. -/
def blockIndex : TermIndex :=
  .ofNat 0

/-- The pair follows the block. -/
def pairIndex : TermIndex :=
  .ofNat 1

/-- The sign in front. -/
def firstIndex : TermIndex :=
  .ofNat 2

/-- The sign behind it. -/
def secondIndex : TermIndex :=
  .ofNat 3

/-- The bracket in front of the pair. -/
def openIndex : TermIndex :=
  .ofNat 4

/-- The bracket behind the pair. -/
def closeIndex : TermIndex :=
  .ofNat 5

/-- The brace around the pair. -/
def braceIndex : TermIndex :=
  .ofNat 6

/-- The node type of a pair of signs, whose rule may be spliced once its shape is known. -/
def pair (spliced : Bool) : NodeDeclaration where
  typeName := "Pair"
  name := "Pair"
  number := 1
  valueType := .unit
  rule := .followedBy (.key (.ofText "+" .none)) (.key (.ofText "-" .none))
  afterthoughts := [.setFlags (.ofList [.transient]) spliced]
  build _ := .ok .null

/-- The node type of a pair between brackets. -/
def block : NodeDeclaration where
  typeName := "Block"
  name := "Block"
  number := 0
  valueType := .unit
  rule := .braces "[" (.node 1) "]" false
  afterthoughts := []
  build _ := .ok .null

/-- The grammar of blocks. -/
def description (spliced : Bool) : GrammarDescription where
  name := "Pairs"
  types := #[block, pair spliced]
  root := 0
  comments := []

/-- The braces of a block. -/
def spec : BraceSpec where
  opening := "["
  inside := .term pairIndex
  closing := "]"
  omissible := false

/-- The seven entries, in the order in which they are registered. -/
def entries (spliced : Bool) : Array Entry := #[
  { block.pending with kind := .rule (some (.term braceIndex)) },
  { (pair spliced).pending with
    kind := .rule (some (.sequence [.term firstIndex, .term secondIndex]))
    flags := Flags.none.assign (.ofList [.transient]) spliced },
  (KeyRequest.ofText "+" .none).entry,
  (KeyRequest.ofText "-" .none).entry,
  (KeyRequest.ofText "[" (.ofList [.openBrace])).entry,
  (KeyRequest.ofText "]" (.ofList [.closeBrace])).entry,
  { name := "[Pair]"
    kind := .rule (some (.sequence [.term openIndex, .term pairIndex, .term closeIndex]))
    maker := some .brace }]

/-- The table of the two signs and the two brackets. -/
def keyTerms : KeyTermTable :=
  (((KeyTermTable.empty.push ⟨.ofText "+" .none, firstIndex⟩).push
    ⟨.ofText "-" .none, secondIndex⟩).push ⟨.ofText "[" (.ofList [.openBrace]), openIndex⟩).push
      ⟨.ofText "]" (.ofList [.closeBrace]), closeIndex⟩

/-- The draft once everything is registered. -/
def draft (spliced : Bool) : Draft where
  entries := entries spliced
  keyTerms
  declared := [("Pair", pairIndex), ("Block", blockIndex)]
  claims := [("Pair", "Pair"), ("Block", "Block")]
  optionals := []
  groups := []
  lists := []
  braces := [(spec, braceIndex)]

/-- What the grammar is compiled to. -/
def built (spliced : Bool) : BuiltGrammar :=
  (draft spliced).complete "Pairs" blockIndex []

/-- The grammar once it is built. -/
def grammar (spliced : Bool) : Grammar :=
  ⟨description spliced, some (built spliced)⟩

/-- Defining the block registers the entries, and then the rule of the pair is spliced or not. -/
theorem runOn_defineNode (spliced : Bool) :
    (Drafting.defineNode (description spliced).types (description spliced).root).runOn .empty =
      (.ok blockIndex, draft spliced) := by
  simp [Drafting.defineNode, Drafting.defineNodeWithin, description, Drafting.declare,
    Drafting.claim, block, pair, Draft.empty, Draft.pushEntry, Draft.modifyTerm, Draft.term?,
    Draft.entry?, Term.withShape, TermIndex.ofNat?, termLimit, NodeDeclaration.pending,
    KeyRequest.entry, KeyRequest.ofText, Rule.eval, Afterthought.run, Except.map, List.lookup_cons,
    List.lookup_nil, KeyTermTable.lookup, KeyTermTable.get?_push, Drafting.runOn_braces,
    Drafting.textKey, Drafting.bracesBetween, Drafting.runOn_group, Shape.term?]
  exact ⟨rfl, rfl⟩

/-- The grammar compiles. -/
theorem compile_eq (spliced : Bool) : (description spliced).compile = .ok (built spliced) := by
  rw [GrammarDescription.compile, runOn_defineNode]
  rfl

/-- It is built even if critical messages count. -/
theorem build_eq (spliced : Bool) : (Grammar.mk (description spliced) none).build .critical =
    (.ok true, grammar spliced) := by
  refine Grammar.build_of_compile (compile_eq spliced) ?_
  cases spliced <;> decide +kernel

/-- The draft is at the end of a run. -/
theorem exists_run (spliced : Bool) :
    ∃ events, Session.Run .start events ⟨draft spliced, []⟩ :=
  Drafting.exists_run_of_defineNode (runOn_defineNode spliced)

/-- The braces of the block are registered. -/
theorem known?_braces (spliced : Bool) :
    (draft spliced).known? (.braces spec) = some braceIndex := by
  show List.lookup spec [(spec, braceIndex)] = some braceIndex
  exact List.lookup_cons_self

/-- The symbols of the grammar, in order. -/
def symbols : List String :=
  ["+", "-", "[", "]"]

/-- All key terms are symbols, and no word is reserved. -/
theorem lexicon_eq (spliced : Bool) : (built spliced).language.lexicon = ⟨symbols, [], []⟩ := by
  have htexts : ((keyTerms.records.toList.map (·.text)).filter
      fun text => !text.isEmpty && !Text.isWord text).eraseDups = symbols := by
    decide +kernel
  have hreserved : keyTerms.reservedWords = [] := by
    decide +kernel
  exact Language.lexicon_of_texts htexts (by decide +kernel) hreserved rfl

/-- The two signs. -/
def pairTrees : List Tree :=
  [.token (.term firstIndex) "+", .token (.term secondIndex) "-"]

/-- The children of the brace: the brackets, and between them the pair or its two signs. -/
def children (spliced : Bool) : List Tree :=
  .token (.term openIndex) "[" ::
    (if spliced then pairTrees else [.node (.term pairIndex) pairTrees]) ++
      [.token (.term closeIndex) "]"]

/-- The tree of the text. -/
def document (spliced : Bool) : Tree :=
  .node .document [.node (.term blockIndex) [.node (.term braceIndex) (children spliced)]]

set_option maxRecDepth 2048 in
/-- Besides the lexicon, only the terms matter for the tree of a text. -/
theorem parse?_of_lexicon {language : Language} (spliced : Bool) (keyTerms : KeyTermTable)
    (h : language = ⟨"Pairs", (entries spliced).map Entry.toTerm, keyTerms, blockIndex, []⟩)
    (hlexicon : language.lexicon = ⟨symbols, [], []⟩) :
    language.parse? "[+-]" = some ⟨some (document spliced), []⟩ := by
  rw [Language.parse?, Language.matchDocument]
  simp only [hlexicon]
  subst h
  clear hlexicon
  cases spliced <;> with_unfolding_all rfl

/-- A pair between brackets is accepted. -/
theorem parse?_eq (spliced : Bool) :
    (built spliced).language.parse? "[+-]" = some ⟨some (document spliced), []⟩ :=
  parse?_of_lexicon spliced keyTerms rfl (lexicon_eq spliced)

/-- The text is read with a source of its own. -/
def reading (spliced : Bool) : Reading :=
  (built spliced).reading "[+-]" "s"

/-- All nodes of the text are in its first line. -/
def location (column : ℕ) : Location :=
  ⟨0, column, column, "s"⟩

/-- The node of a sign at a column. -/
def signNode (column : ℕ) (sign : String) (flags : Flags) : Node :=
  .key (location column) (.text sign) sign sign flags none

/-- The nodes of the two signs. -/
def signs : List Node :=
  [signNode 1 "+" .none, signNode 2 "-" .none]

/-- If the pair is spliced, then the brackets are among the signs. -/
theorem node_spliced : (reading true).node 1 0 (.node (.term braceIndex) (children true)) =
    .ok (some (.brace (location 0) none none (.sequence (location 0)
      (signNode 0 "[" (.ofList [.openBrace]) :: signs ++
        [signNode 3 "]" (.ofList [.closeBrace])])))) := by
  with_unfolding_all rfl

/-- If the pair is a node, then the brace keeps its brackets apart. -/
theorem node_whole : (reading false).node 1 0 (.node (.term braceIndex) (children false)) =
    .ok (some (.brace (location 0) (some "[") (some "]")
      (.declared (location 1) (pair false).identity .unit signs))) := by
  with_unfolding_all rfl

/-- The brace is the only child of the block. -/
theorem at?_document (spliced : Bool) :
    (document spliced).at? [0, 0] = some (.node (.term braceIndex) (children spliced)) :=
  rfl

/-- The terms of the language are those of the entries. -/
theorem term?_eq (spliced : Bool) (index : TermIndex) :
    (built spliced).language.term? index = ((entries spliced)[index.value]?).map Entry.toTerm :=
  Draft.term?_complete

/-- The brackets are found by their texts. -/
theorem known?_keys (spliced : Bool) :
    (draft spliced).known? (.key spec.opening) = some openIndex ∧
      (draft spliced).known? (.key spec.closing) = some closeIndex := by
  constructor
  · show (keyTerms.get? "[").map (·.term) = some openIndex
    simp [keyTerms, KeyTermTable.get?_push, KeyTermTable.get?_empty, KeyRequest.ofText]
  · show (keyTerms.get? "]").map (·.term) = some closeIndex
    simp [keyTerms, KeyTermTable.get?_push, KeyTermTable.get?_empty, KeyRequest.ofText]

/-- The pair is a single part if it is not spliced. -/
theorem isSingle_pair : (built false).language.IsSingle (.term pairIndex) := by
  refine .part fun term shape hdef => ?_
  obtain rfl := Option.some.inj ((term?_eq false pairIndex).symm.trans hdef.1)
  rfl

/-- **A group of two parts.**  The pair that is spliced stands between the brackets as two parts, so
the brace has four, and its node is not bracketed. -/
theorem not_bracketed :
    (Grammar.mk (description true) none).build .critical = (.ok true, grammar true) ∧
      (draft true).known? (.braces spec) = some braceIndex ∧ spec.omissible = false ∧
      (draft true).IsGrouped spec.inside (.term pairIndex) ∧
      (built true).language.parse? "[+-]" = some ⟨some (document true), []⟩ ∧
      (document true).at? [0, 0] = some (.node (.term braceIndex) (children true)) ∧
      (partKinds (children true)).length = 4 ∧
      ¬ ∀ node, (reading true).node 1 0 (.node (.term braceIndex) (children true)) =
          .ok (some node) →
        ∃ location nested, node = .brace location (some "[") (some "]") nested := by
  refine ⟨build_eq true, known?_braces true, rfl, Or.inl ⟨rfl, rfl⟩, parse?_eq true, rfl, by decide,
    fun hall => ?_⟩
  obtain ⟨_, _, hnode⟩ := hall _ node_spliced
  cases hnode

end SignPair

/-- The pair that is one part is bracketed, and the brace holds its node. -/
theorem grouping_of_at?_signPair :
    (SignPair.built false).language.parse? "[+-]" = some ⟨some (SignPair.document false), []⟩ ∧
      (SignPair.document false).at? [0, 0] =
        some (.node (.term SignPair.braceIndex) (SignPair.children false)) ∧
      (partKinds (SignPair.children false)).length = 3 ∧
      ∃ middle offset group, (SignPair.reading false).parts 2 offset middle = .ok [group] ∧
        .declared (SignPair.location 1) (SignPair.pair false).identity .unit SignPair.signs =
          (group.node.getD (Node.ofSequence (SignPair.location 0) [])).soleOrSelf := by
  refine ⟨SignPair.parse?_eq false, rfl, ?_⟩
  obtain ⟨events, hrun⟩ := SignPair.exists_run false
  obtain ⟨_, hbraces⟩ := @grouping_of_at? _ _ _ _ "s" _ _ _ _ _ _ _ _ hrun rfl
    (SignPair.parse?_eq false) rfl (SignPair.at?_document false)
  obtain ⟨openIndex, closeIndex, item, hmatch⟩ := hbraces _ (SignPair.known?_braces false)
  obtain ⟨hopen, hclose⟩ := SignPair.known?_keys false
  obtain rfl := Option.some.inj (hopen.symm.trans hmatch.opening)
  obtain rfl := Option.some.inj (hclose.symm.trans hmatch.closing)
  rcases hmatch.grouped with ⟨_, rfl⟩ | ⟨hnone, _⟩
  · rcases hmatch.children_match with
      ⟨first, middle, last, hsplit, hfirst, hmiddle, hlast⟩ | ⟨homissible, _⟩
    · obtain ⟨hlength, hnodes⟩ := hmatch.bracketed SignPair.isSingle_pair
        (fun term hterm => by
          obtain rfl := Option.some.inj
            ((SignPair.term?_eq false SignPair.openIndex).symm.trans hterm)
          decide)
        (fun term hterm => by
          obtain rfl := Option.some.inj
            ((SignPair.term?_eq false SignPair.closeIndex).symm.trans hterm)
          decide)
        first middle last hsplit hfirst hmiddle hlast
      obtain ⟨group, hgroup, hnode⟩ := hnodes 1 0 _ SignPair.node_whole
      injection hnode with hlocation _ _ hnested
      rw [← hlocation] at hnested
      exact ⟨hlength, middle, _, group, hgroup, hnested⟩
    · cases homissible
  · cases hnone

end TypedGrammar
