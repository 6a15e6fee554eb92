import TypedGrammar.Proofs.Grammar.Positions
import TypedGrammar.Proofs.Node.DeclaredTypes

/-!
# Lists

From text to values: the node of a list has one child for each occurrence of an element, in the
order of the text, and the values that are read from it are theirs.  Delimiters stand between the
elements, and behind the last one only where that is allowed.
-/

namespace TypedGrammar

/-! ## Words of lists -/

namespace Language

variable {language : Language} {item delimiter : TermIndex} {bounds : Bounds}
  {kinds : List TreeKind}

/-- A term that is matched alone is one part: a terminal, or a rule that is not transient. -/
def IsPart (language : Language) (index : TermIndex) : Prop :=
  ∀ term shape, language.Defines index term shape → term.flags.has .transient = false

/-- A word of terms that are parts has one part for each of them. -/
theorem Word.eq_of_isPart {indices : List TermIndex}
    (hparts : ∀ index ∈ indices, language.IsPart index)
    (h : language.Word (indices.map .term) kinds) : kinds = indices.map .term := by
  induction indices generalizing kinds with
  | nil =>
    cases h
    rfl
  | cons index rest ih =>
    obtain ⟨hindex, hrest⟩ := List.forall_mem_cons.mp hparts
    rw [List.map_cons] at h
    cases h with
    | unfold hunfolds _ => cases hunfolds
    | terminal _ _ hword => rw [ih hrest hword, List.map_cons]
    | rule _ _ hword => rw [ih hrest hword, List.map_cons]
    | spliced hdef htransient _ _ =>
      rw [hindex _ _ hdef] at htransient
      cases htransient

/-- A word of one shape is a word of what the shape stands for. -/
theorem Word.exists_unfolds {shape : Shape} (hterm : shape.term? = none)
    (h : language.Word [shape] kinds) :
    ∃ shapes, shape.Unfolds shapes ∧ language.Word shapes kinds := by
  cases h with
  | unfold hunfolds hword =>
    rw [List.append_nil] at hword
    exact ⟨_, hunfolds, hword⟩
  | terminal _ _ _ => cases hterm
  | rule _ _ _ => cases hterm
  | spliced _ _ _ _ => cases hterm

/-- A row of items without delimiters is as long as one likes, and empty only if allowed. -/
theorem Word.repeated (hitem : language.IsPart item)
    (h : language.Word [.repeated (.term item) bounds] kinds) :
    kinds = [] ∧ bounds.allowEmpty = true ∨ ∃ n, kinds = List.replicate (n + 1) (.term item) := by
  obtain ⟨shapes, hunfolds, hword⟩ := h.exists_unfolds rfl
  cases hunfolds with
  | noItem hempty =>
    cases hword
    exact Or.inl ⟨rfl, hempty⟩
  | repeated n =>
    have hrow : Shape.term item :: List.replicate n (.term item) =
        (List.replicate (n + 1) item).map .term := by
      rw [List.map_replicate, List.replicate_succ]
    rw [hrow] at hword
    have hkinds := hword.eq_of_isPart fun index hindex => by
      rwa [List.eq_of_mem_replicate hindex]
    rw [List.map_replicate] at hkinds
    exact Or.inr ⟨n, hkinds⟩

/-- Items with delimiters between them. -/
def alternating (item delimiter : TermIndex) (n : ℕ) : List TermIndex :=
  item :: (List.replicate n [delimiter, item]).flatten

/-- What is made of items and delimiters alternates as they do. -/
theorem map_alternating {α : Type} (f : TermIndex → α) (n : ℕ) :
    (alternating item delimiter n).map f =
      f item :: (List.replicate n [f delimiter, f item]).flatten := by
  rw [alternating, List.map_cons, List.map_flatten, List.map_replicate]
  rfl

/-- Each of the terms is an item or a delimiter. -/
theorem mem_alternating {index : TermIndex} {n : ℕ} (h : index ∈ alternating item delimiter n) :
    index = item ∨ index = delimiter := by
  rcases List.mem_cons.mp h with h | h
  · exact Or.inl h
  · obtain ⟨pair, hpair, hmem⟩ := List.mem_flatten.mp h
    rw [List.eq_of_mem_replicate hpair] at hmem
    simp only [List.mem_cons, List.not_mem_nil, or_false] at hmem
    exact hmem.symm

/-- A row of items with delimiters is empty only if allowed; otherwise there is one delimiter less
than items, or as many if one may stand behind the last item. -/
theorem Word.separated (hitem : language.IsPart item) (hdelimiter : language.IsPart delimiter)
    (h : language.Word [.separated (.term item) (.term delimiter) bounds] kinds) :
    kinds = [] ∧ bounds.allowEmpty = true ∨
      ∃ n, kinds = (alternating item delimiter n).map .term ∨
        bounds.allowTrailing = true ∧
          kinds = (alternating item delimiter n ++ [delimiter]).map .term := by
  have hparts : ∀ n, ∀ index ∈ alternating item delimiter n ++ [delimiter],
      language.IsPart index := by
    intro n index hindex
    rcases List.mem_append.mp hindex with hindex | hindex
    · rcases mem_alternating hindex with rfl | rfl
      · exact hitem
      · exact hdelimiter
    · rwa [List.mem_singleton.mp hindex]
  obtain ⟨shapes, hunfolds, hword⟩ := h.exists_unfolds rfl
  cases hunfolds with
  | noneSeparated hempty =>
    cases hword
    exact Or.inl ⟨rfl, hempty⟩
  | separated n =>
    rw [← map_alternating] at hword
    exact Or.inr ⟨n, Or.inl (hword.eq_of_isPart fun index hindex =>
      hparts n index (List.mem_append_left _ hindex))⟩
  | trailing n htrailing =>
    rw [← map_alternating, ← List.map_singleton, ← List.map_append] at hword
    exact Or.inr ⟨n, Or.inr ⟨htrailing, hword.eq_of_isPart (hparts n)⟩⟩

/-- There is one item more than there are delimiters. -/
theorem count_alternating (hne : item ≠ delimiter) (n : ℕ) :
    ((alternating item delimiter n).map TreeKind.term).count (.term item) = n + 1 ∧
      ((alternating item delimiter n).map TreeKind.term).count (.term delimiter) = n := by
  rw [map_alternating, List.count_cons, List.count_cons, List.count_flatten, List.count_flatten,
    List.map_replicate, List.map_replicate, List.sum_replicate_nat, List.sum_replicate_nat]
  simp [hne, Ne.symm hne]

/-- **Words of lists.**  The parts of a list are elements and delimiters.  There are none only if
allowed; otherwise there is one delimiter less than elements, or as many if one may stand behind the
last element. -/
theorem Word.list {delimiter : Option TermIndex} (hitem : language.IsPart item)
    (hdelimiter : ∀ d ∈ delimiter, language.IsPart d ∧ item ≠ d)
    (h : language.Word [Shape.repetition (.term item) (delimiter.map .term) bounds] kinds) :
    (∀ kind ∈ kinds, kind = .term item ∨ ∃ d ∈ delimiter, kind = .term d) ∧
      (kinds = [] ∧ bounds.allowEmpty = true ∨ 0 < kinds.count (.term item) ∧ ∀ d ∈ delimiter,
        kinds.count (.term d) + 1 = kinds.count (.term item) ∨
          bounds.allowTrailing = true ∧ kinds.count (.term d) = kinds.count (.term item)) := by
  cases delimiter with
  | none =>
    rcases Word.repeated hitem h with ⟨rfl, hempty⟩ | ⟨n, rfl⟩
    · exact ⟨nofun, Or.inl ⟨rfl, hempty⟩⟩
    · refine ⟨fun kind hkind => Or.inl (List.eq_of_mem_replicate hkind), Or.inr ⟨?_, nofun⟩⟩
      rw [List.count_replicate_self]
      exact Nat.succ_pos n
  | some d =>
    obtain ⟨hpart, hne⟩ := hdelimiter d rfl
    have hkinds : ∀ index : TermIndex, index = item ∨ index = d →
        TreeKind.term index = .term item ∨ ∃ d' ∈ some d, TreeKind.term index = .term d' := by
      rintro index (rfl | rfl)
      · exact Or.inl rfl
      · exact Or.inr ⟨index, rfl, rfl⟩
    -- There is one delimiter less than items, or one stands behind the last item as well.
    rcases Word.separated hitem hpart h with ⟨rfl, hempty⟩ | ⟨n, rfl | ⟨htrailing, rfl⟩⟩
    · exact ⟨nofun, Or.inl ⟨rfl, hempty⟩⟩
    · obtain ⟨hitems, hdelimiters⟩ := count_alternating hne n
      refine ⟨fun kind hkind => ?_, Or.inr ⟨by omega, ?_⟩⟩
      · obtain ⟨index, hindex, rfl⟩ := List.mem_map.mp hkind
        exact hkinds index (mem_alternating hindex)
      · rintro _ ⟨⟩
        exact Or.inl (by omega)
    · obtain ⟨hitems, hdelimiters⟩ := count_alternating hne n
      rw [List.map_append, List.map_singleton, List.count_append, List.count_singleton]
      refine ⟨fun kind hkind => ?_, Or.inr ⟨by omega, ?_⟩⟩
      · rcases List.mem_append.mp hkind with hkind | hkind
        · obtain ⟨index, hindex, rfl⟩ := List.mem_map.mp hkind
          exact hkinds index (mem_alternating hindex)
        · exact Or.inr ⟨d, rfl, List.mem_singleton.mp hkind⟩
      · rintro _ ⟨⟩
        refine Or.inr ⟨htrailing, ?_⟩
        rw [List.count_append, List.count_singleton]
        simp [hitems, hdelimiters, Ne.symm hne]

end Language

/-! ## Nodes of lists -/

/-- Pairs are kept where the first one is chosen and the second one has something to give. -/
theorem forall₂_filter_filterMap {α β γ : Type} {R : α → β → Prop} {S : α → γ → Prop} {p : α → Bool}
    {f : β → Option γ} {as : List α} {bs : List β} (h : List.Forall₂ R as bs)
    (hsome : ∀ a ∈ as, ∀ b, R a b → p a = true → ∃ c, f b = some c ∧ S a c)
    (hnone : ∀ a ∈ as, ∀ b, R a b → p a = false → f b = none) :
    List.Forall₂ S (as.filter p) (bs.filterMap f) := by
  induction h with
  | nil => exact .nil
  | @cons a b _ _ hab _ ih =>
    have hrest := ih (fun a ha => hsome a (List.mem_cons_of_mem _ ha))
      (fun a ha => hnone a (List.mem_cons_of_mem _ ha))
    cases hp : p a with
    | true =>
      obtain ⟨c, hc, hS⟩ := hsome a List.mem_cons_self b hab hp
      rw [List.filter_cons_of_pos hp, List.filterMap_cons_some hc]
      exact .cons hS hrest
    | false =>
      rw [List.filter_cons_of_neg (by simp [hp]),
        List.filterMap_cons_none (hnone a List.mem_cons_self b hab hp)]
      exact hrest

/-- The occurrences of a term among some trees, each at its place. -/
def Tree.occurrences (index : TermIndex) (offset : ℕ) (trees : List Tree) : List (ℕ × Tree) :=
  (placedParts offset trees).filter (·.2.kind = .term index)

/-- A term occurs as often as it is the kind of a part. -/
theorem Tree.length_occurrences (index : TermIndex) (offset : ℕ) (trees : List Tree) :
    (occurrences index offset trees).length = (partKinds trees).count (.term index) := by
  rw [← map_kind_placedParts offset, occurrences, List.count, List.countP_map,
    List.countP_eq_length_filter]
  congr 1

namespace Draft

variable {draft : Draft} {index : TermIndex} {term : Term} {name : String} {root : TermIndex}
  {comments : List Comment}

/-- The entry of a term of the language. -/
theorem entry_of_term? (h : (draft.complete name root comments).language.term? index = some term) :
    ∃ entry, draft.entries[index.value]? = some entry ∧ entry.toTerm = term := by
  rw [term?_complete, term?, entry?] at h
  exact Option.map_eq_some_iff.mp h

/-- What is read for a term is made by the maker of its entry. -/
theorem maker?_of_entry {entry : Entry} {text source : String}
    (h : draft.entries[index.value]? = some entry) :
    ((draft.complete name root comments).reading text source).maker? (.term index) =
      entry.maker := by
  refine Reading.maker?_term ?_
  show (draft.complete name root comments).makers[index.value]? = _
  exact makers_of_entry h

/-- The terminals of a consistent draft have makers. -/
theorem IsConsistent.exists_maker (h : draft.IsConsistent) {text source : String}
    (hterm : (draft.complete name root comments).language.term? index = some term)
    (hterminal : term.isTerminal = true) :
    ∃ maker, ((draft.complete name root comments).reading text source).maker? (.term index) =
      some maker := by
  obtain ⟨entry, hentry, rfl⟩ := entry_of_term? hterm
  obtain ⟨maker, hmaker⟩ := Option.isSome_iff_exists.mp (h.makers _ entry hentry hterminal)
  exact ⟨maker, (maker?_of_entry hentry).trans hmaker⟩

end Draft

namespace Reading

open TypedGrammar.Tree

variable {reading : Reading} {depth offset : ℕ} {sub : Tree} {index : TermIndex} {made : Option Node}

/-- An occurrence of a term that is shown has a node. -/
theorem exists_node_of_isDerived (hderived : reading.language.IsDerived sub)
    (hkind : sub.kind = .term index)
    (hshown : ∀ term, reading.language.term? index = some term →
      term.flags.has .noNode = false ∧ term.flags.has .punctuation = false)
    (hmaker : ∀ term, reading.language.term? index = some term → term.isTerminal = true →
      ∃ maker, reading.maker? (.term index) = some maker)
    (h : reading.node depth offset sub = .ok made) : ∃ node, made = some node := by
  cases hderived with
  | trivia => cases hkind
  | token hterm hterminal =>
    obtain rfl := TreeKind.term.inj hkind
    obtain ⟨hnode, hpunctuation⟩ := hshown _ hterm
    obtain ⟨maker, hmaker⟩ := hmaker _ hterm hterminal
    rw [Reading.node, tokenNode, term_of_term? hterm, hmaker] at h
    obtain ⟨_, hok, h⟩ := bind_eq_ok h
    obtain rfl := Except.ok.inj hok
    rw [hnode, hpunctuation] at h
    obtain ⟨node, _, h⟩ := bind_eq_ok h
    exact ⟨node, (Except.ok.inj h).symm⟩
  | node hdef _ _ =>
    obtain rfl := TreeKind.term.inj hkind
    obtain ⟨_, node, _, _, hmade⟩ := parts_of_node (term_of_term? hdef.1) (hshown _ hdef.1).1 h
    exact ⟨node, hmade⟩

/-- Punctuation has no node. -/
theorem node_of_punctuation {term : Term} {text : String}
    (hterm : reading.language.term? index = some term) (hkind : term.kind = .key text)
    (hpunctuation : term.flags.has .punctuation = true) (hderived : reading.language.IsDerived sub)
    (hsub : sub.kind = .term index) (h : reading.node depth offset sub = .ok made) :
    made = none := by
  cases hderived with
  | trivia => cases hsub
  | token =>
    obtain rfl := TreeKind.term.inj hsub
    rw [Reading.node, tokenNode, term_of_term? hterm] at h
    obtain ⟨_, hok, h⟩ := bind_eq_ok h
    obtain rfl := Except.ok.inj hok
    rw [hpunctuation] at h
    exact (Except.ok.inj h).symm
  | node hdef _ _ =>
    -- A key term is no rule.
    obtain rfl := TreeKind.term.inj hsub
    obtain rfl := Option.some.inj (hterm.symm.trans hdef.1)
    have hrule := hkind.symm.trans hdef.2
    cases hrule

/-- Among elements and delimiters, there is one node for each element, and no other one. -/
theorem forall₂_occurrences {item : TermIndex} {delimiter : Option TermIndex} {children : List Tree}
    {parts : List Part} (hderived : ∀ child ∈ children, reading.language.IsDerived child)
    (hkinds : ∀ kind ∈ partKinds children, kind = .term item ∨ ∃ d ∈ delimiter, kind = .term d)
    (hshown : ∀ term, reading.language.term? item = some term →
      term.flags.has .noNode = false ∧ term.flags.has .punctuation = false)
    (hmaker : ∀ term, reading.language.term? item = some term → term.isTerminal = true →
      ∃ maker, reading.maker? (.term item) = some maker)
    (hdelimiter : ∀ d ∈ delimiter, ∃ term text, reading.language.term? d = some term ∧
      term.kind = .key text ∧ term.flags.has .punctuation = true)
    (hparts : reading.parts depth offset children = .ok parts) :
    List.Forall₂ (fun place node => reading.node depth place.1 place.2 = .ok (some node))
      (occurrences item offset children) (parts.filterMap (·.node)) := by
  have hplaced : ∀ place ∈ placedParts offset children,
      reading.language.IsDerived place.2 ∧
        (place.2.kind = .term item ∨ ∃ d ∈ delimiter, place.2.kind = .term d) := by
    intro place hplace
    obtain ⟨⟨front, rest, hchildren, _⟩, _⟩ := mem_placedParts_iff.mp hplace
    refine ⟨hderived place.2 ?_, hkinds _ ?_⟩
    · rw [hchildren]
      exact List.mem_append_right _ List.mem_cons_self
    · rw [← map_kind_placedParts offset]
      exact List.mem_map_of_mem hplace
  refine forall₂_filter_filterMap (forall₂_of_parts hparts) ?_ ?_
  · rintro place hplace part ⟨_, hnode⟩ hkind
    obtain ⟨node, hmade⟩ := exists_node_of_isDerived (hplaced place hplace).1
      (of_decide_eq_true hkind) hshown hmaker hnode
    exact ⟨node, hmade, hmade ▸ hnode⟩
  · rintro place hplace part ⟨_, hnode⟩ hkind
    obtain ⟨hsub, heq | ⟨d, hd, heq⟩⟩ := hplaced place hplace
    · exact absurd heq (of_decide_eq_false hkind)
    · obtain ⟨term, text, hterm, hkey, hpunctuation⟩ := hdelimiter d hd
      exact node_of_punctuation hterm hkey hpunctuation hsub heq hnode

/-- What is read of the repetition of a term that is shown, with or without punctuation between its
occurrences, is the list of their nodes. -/
theorem list_of_derives {element : ValueType} {item list : TermIndex} {delimiter : Option TermIndex}
    {bounds : Bounds} {term : Term} {below : ℕ} {start stop : Cursor} {children : List Tree}
    {node : Node} (hterm : reading.language.term? list = some term)
    (hlist : reading.maker? (.term list) = some (.list element))
    (hchildren : reading.language.Derives below
      [Shape.repetition (.term item) (delimiter.map .term) bounds] start children stop)
    (hitem : ∀ term, reading.language.term? item = some term →
      term.flags.has .transient = false ∧ term.flags.has .noNode = false ∧
        term.flags.has .punctuation = false)
    (hmaker : ∀ term, reading.language.term? item = some term → term.isTerminal = true →
      ∃ maker, reading.maker? (.term item) = some maker)
    (hdelimiter : ∀ d ∈ delimiter, ∃ term text, reading.language.term? d = some term ∧
      term.kind = .key text ∧ term.flags.has .punctuation = true)
    (hnode : reading.node depth offset (.node (.term list) children) = .ok (some node))
    (hvalues : ∀ place ∈ occurrences item offset children, ∀ node,
      reading.node (depth + 1) place.1 place.2 = .ok (some node) →
        node.payloadType = element ∧ node.hasValue = true) :
    ∃ nodes, node = .list (reading.locateTree offset (.node (.term list) children)) element nodes ∧
      List.Forall₂ (fun place node => reading.node (depth + 1) place.1 place.2 = .ok (some node))
        (occurrences item offset children) nodes ∧
      (ListReader.mk element nodes).toList.map some = nodes.map Node.payload? ∧
      (∀ count, ((ListReader.mk element nodes).take count).1 =
        (ListReader.mk element nodes).toList.take count) ∧
      (nodes = [] → bounds.allowEmpty = true ∧ partKinds children = []) ∧
      (nodes ≠ [] → ∀ d ∈ delimiter, (partKinds children).count (.term d) + 1 = nodes.length ∨
        bounds.allowTrailing = true ∧ (partKinds children).count (.term d) = nodes.length) := by
  have hdistinct : ∀ d ∈ delimiter, reading.language.IsPart d ∧ item ≠ d := by
    intro d hd
    obtain ⟨term, text, hd, hkey, hpunctuation⟩ := hdelimiter d hd
    refine ⟨fun term' shape hdef => ?_, ?_⟩
    · obtain rfl := Option.some.inj (hd.symm.trans hdef.1)
      have hrule := hkey.symm.trans hdef.2
      cases hrule
    · rintro rfl
      rw [(hitem term hd).2.2] at hpunctuation
      cases hpunctuation
  obtain ⟨hkinds, hcounts⟩ :=
    hchildren.word.list (fun term _ hdef => (hitem term hdef.1).1) hdistinct
  obtain ⟨parts, made, hparts, hmade, hsame⟩ :=
    parts_of_node (term_of_term? hterm) (shown_of_node (term_of_term? hterm) hnode) hnode
  obtain rfl := Option.some.inj hsame
  have hoccurrences := forall₂_occurrences hchildren.isDerived hkinds
    (fun term hterm => (hitem term hterm).2) hmaker hdelimiter hparts
  have htyped : ∀ node ∈ parts.filterMap (·.node),
      node.payloadType = element ∧ node.hasValue = true := by
    intro node hmem
    obtain ⟨place, hplace, hplaceNode⟩ := exists_of_forall₂_right hoccurrences hmem
    exact hvalues place hplace node hplaceNode
  have hlength : (parts.filterMap (·.node)).length = (partKinds children).count (.term item) := by
    rw [← hoccurrences.length_eq, length_occurrences]
  -- All nodes are of the element type, so the list keeps them.
  have hkept : (parts.filterMap (·.node)).filter (·.payloadType = element) =
      parts.filterMap (·.node) :=
    List.filter_eq_self.mpr fun node hmem => decide_eq_true (htyped node hmem).1
  rw [ruleNode, hlist] at hmade
  refine ⟨parts.filterMap (·.node), ?_, hoccurrences, ListReader.map_some_toList htyped,
    fun count => (ListReader.take_eq _ count).1, fun hnil => ?_, fun hne d hd => ?_⟩
  · rw [← Except.ok.inj hmade]
    show Node.list _ element ((parts.filterMap (·.node)).filter _) = _
    rw [hkept]
  · rcases hcounts with ⟨hnone, hempty⟩ | ⟨hpos, _⟩
    · exact ⟨hempty, hnone⟩
    · rw [← hlength, hnil] at hpos
      exact absurd hpos (Nat.lt_irrefl 0)
  · rcases hcounts with ⟨hnone, _⟩ | ⟨_, hcount⟩
    · rw [hnone] at hlength
      exact absurd (List.length_eq_zero_iff.mp hlength) hne
    · rw [hlength]
      exact hcount d hd

end Reading

section Lists

open TypedGrammar.Tree

variable {session : Session} {events : List Event} {element : ValueType} {item list : TermIndex}
  {delimiter : Option TermIndex} {bounds : Bounds} {name text source : String} {root : TermIndex}
  {comments : List Comment} {built : BuiltGrammar} {parse : Parse} {tree : Tree} {depth offset : ℕ}
  {before : List Token} {children : List Tree} {node : Node}

/-- The entry of a list of single terms: its rule is a repetition of this term. -/
theorem Draft.IsConsistent.exists_list {draft : Draft} (h : draft.IsConsistent)
    (hlist : draft.known? (.list ⟨element, .term item, delimiter.map .term, bounds⟩) = some list) :
    ∃ entry, draft.entries[list.value]? = some entry ∧ entry.maker = some (.list element) ∧
      entry.kind = .rule (some (Shape.repetition (.term item) (delimiter.map .term) bounds)) := by
  obtain ⟨entry, hentry, hmaker, grouped, hgrouped, hkind⟩ := h.known _ _ hlist
  rcases hgrouped with ⟨_, rfl⟩ | ⟨hterm, _⟩
  · exact ⟨entry, hentry, hmaker, hkind⟩
  · cases hterm

/-- **Lists.**  A list of single terms that are shown and spliced nowhere, with or without a
delimiter that is punctuation, is made of what its occurrence in an accepted text consists of: there
is one node for each element, in the order of the text, and none for delimiters; what is read from
the list is what these nodes hold; and the delimiters are one less than the elements, or as many
where one may stand behind the last element. -/
theorem list_of_visits (hrun : Session.Run .start events session)
    (hlist : session.draft.known? (.list ⟨element, .term item, delimiter.map .term, bounds⟩) =
      some list)
    (hbuilt : built = session.draft.complete name root comments)
    (hitem : ∀ term, built.language.term? item = some term → term.flags.has .transient = false ∧
      term.flags.has .noNode = false ∧ term.flags.has .punctuation = false)
    (hdelimiter : ∀ d ∈ delimiter, ∃ term text, built.language.term? d = some term ∧
      term.kind = .key text ∧ term.flags.has .punctuation = true)
    (hparse : built.language.parse? text = some parse) (htree : parse.tree = some tree)
    (helement : ∀ depth offset before sub node,
      (built.reading text source).Visits tree depth offset before sub → sub.kind = .term item →
        (built.reading text source).node depth offset sub = .ok (some node) →
          node.payloadType = element ∧ node.hasValue = true)
    (hvisits : (built.reading text source).Visits tree depth offset before
      (.node (.term list) children))
    (hnode : (built.reading text source).node depth offset (.node (.term list) children) =
      .ok (some node)) :
    ∃ nodes, node = .list ((built.reading text source).locateTree offset
        (.node (.term list) children)) element nodes ∧
      List.Forall₂ (fun place node =>
          (built.reading text source).node (depth + 1) place.1 place.2 = .ok (some node))
        (occurrences item offset children) nodes ∧
      (ListReader.mk element nodes).toList.map some = nodes.map Node.payload? ∧
      (∀ count, ((ListReader.mk element nodes).take count).1 =
        (ListReader.mk element nodes).toList.take count) ∧
      (nodes = [] → bounds.allowEmpty = true ∧ partKinds children = []) ∧
      (nodes ≠ [] → ∀ d ∈ delimiter, (partKinds children).count (.term d) + 1 = nodes.length ∨
        bounds.allowTrailing = true ∧ (partKinds children).count (.term d) = nodes.length) := by
  subst hbuilt
  obtain ⟨hconsistent, _⟩ := hrun.keeps Session.isConsistent_start
  obtain ⟨entry, hentry, hmaker, hkind⟩ := hconsistent.draft.exists_list hlist
  have hterm : (session.draft.complete name root comments).language.term? list =
      some entry.toTerm := Draft.term?_of_entry hentry
  have hlistMaker : ((session.draft.complete name root comments).reading text source).maker?
      (.term list) = some (.list element) := (Draft.maker?_of_entry hentry).trans hmaker
  -- The children of the list are what its repetition derives.
  obtain ⟨hderived, _⟩ := hvisits.isDerived hparse htree
  cases hderived with
  | node hdef _ hchildren =>
    obtain rfl := Option.some.inj (hterm.symm.trans hdef.1)
    have hshape := hkind.symm.trans hdef.2
    obtain rfl := Option.some.inj (TermKind.rule.inj hshape)
    refine Reading.list_of_derives hterm hlistMaker hchildren hitem
      (fun term hterm hterminal => hconsistent.draft.exists_maker hterm hterminal) hdelimiter hnode ?_
    intro place hplace node hplaceNode
    obtain ⟨hplace, hplaceKind⟩ := List.mem_filter.mp hplace
    obtain ⟨⟨front, rest, rfl, hoffset⟩, htrivia⟩ := mem_placedParts_iff.mp hplace
    have hread : ((session.draft.complete name root comments).reading text source).term
        (.term list) = .ok entry.toTerm := Reading.term_of_term? hterm
    refine helement _ _ _ place.2 node (hvisits.part hread
      (Reading.shown_of_node hread hnode) htrivia) (of_decide_eq_true hplaceKind) ?_
    rw [← hoffset]
    exact hplaceNode

end Lists

/-! ### Letters with commas

Letters with commas between them, of which one may stand behind the last letter. -/

namespace LetterRow

open TypedGrammar.Tree

/-- The row is the first term. -/
def rowIndex : TermIndex :=
  .ofNat 0

/-- The letter follows the row. -/
def letterIndex : TermIndex :=
  .ofNat 1

/-- The comma follows the letter. -/
def commaIndex : TermIndex :=
  .ofNat 2

/-- The list is the last term. -/
def listIndex : TermIndex :=
  .ofNat 3

/-- The request for the letter. -/
def letter : KeyRequest where
  name := "x"
  text := "x"
  value := .text "x"
  flags := .none
  precedence := none

/-- The request for the comma, which is punctuation. -/
def comma : KeyRequest where
  name := ","
  text := ","
  value := .text ","
  flags := .ofList [.punctuation]
  precedence := none

/-- A row may be empty, and a comma may stand at its end. -/
def bounds : Bounds :=
  ⟨true, true⟩

/-- The node type of a row. -/
def row : NodeDeclaration where
  typeName := "Row"
  name := "Row"
  number := 0
  valueType := .unit
  rule := .listOf .text (.key letter) (.key comma) bounds
  afterthoughts := []
  build _ := .ok .null

/-- The row is the only node type. -/
def types : Array NodeDeclaration :=
  #[row]

/-- The shape of the list. -/
def letters : Shape :=
  .separated (.term letterIndex) (.term commaIndex) bounds

/-- The draft of the row and its key terms, before the list is registered. -/
def opened : Draft where
  entries := #[row.pending, letter.entry, comma.entry]
  keyTerms := (KeyTermTable.empty.push ⟨letter, letterIndex⟩).push ⟨comma, commaIndex⟩
  declared := [("Row", rowIndex)]
  claims := [("Row", "Row")]
  optionals := []
  groups := []
  lists := []
  braces := []

/-- The entry of the list. -/
def list : Entry where
  name := opened.label (.term letterIndex) ++ Shape.countSign bounds
  kind := .rule (some letters)
  flags := .ofList [.list]
  maker := some (.list .text)

/-- The draft once the list is registered. -/
def draft : Draft :=
  { opened with
    entries := #[{ row.pending with kind := .rule (some (.term listIndex)) }, letter.entry,
      comma.entry, list]
    lists := [(⟨.text, .term letterIndex, some (.term commaIndex), bounds⟩, listIndex)] }

/-- Defining the row registers the letter, the comma and the list. -/
theorem runOn_defineNode : (Drafting.defineNode types 0).runOn .empty = (.ok rowIndex, draft) := by
  simp [Drafting.defineNode, Drafting.defineNodeWithin, types, Drafting.declare, Drafting.claim, row,
    Draft.empty, Draft.pushEntry, Draft.modifyTerm, Term.withShape, TermIndex.ofNat?, termLimit,
    NodeDeclaration.pending, Rule.eval, Except.map, List.lookup_nil, KeyTermTable.lookup,
    KeyTermTable.get?_push, letter, comma, KeyRequest.entry, Drafting.runOn_list,
    Drafting.runOn_group, Shape.term?]
  exact ⟨rfl, rfl⟩

/-- The draft is at the end of a run. -/
theorem exists_run : ∃ events, Session.Run .start events ⟨draft, []⟩ :=
  Drafting.exists_run_of_defineNode runOn_defineNode

/-- The list is registered. -/
theorem known?_list : draft.known?
    (.list ⟨.text, .term letterIndex, (some commaIndex).map .term, bounds⟩) = some listIndex := by
  show List.lookup (⟨.text, .term letterIndex, some (.term commaIndex), bounds⟩ : ListSpec)
    [(⟨.text, .term letterIndex, some (.term commaIndex), bounds⟩, listIndex)] = some listIndex
  exact List.lookup_cons_self

/-- The grammar of rows. -/
def built : BuiltGrammar :=
  draft.complete "Rows" rowIndex []

/-- The comma is the only symbol. -/
theorem lexicon_eq : built.language.lexicon = ⟨[","], [], []⟩ :=
  Language.lexicon_of_texts (by decide +kernel) (List.pairwise_singleton _ _) (by decide +kernel) rfl

/-- Two letters, and a comma behind each of them. -/
def children : List Tree :=
  [.token (.term letterIndex) "x", .token (.term commaIndex) ",", .token (.term letterIndex) "x",
    .token (.term commaIndex) ","]

/-- The tree of the text. -/
def document : Tree :=
  .node .document [.node (.term rowIndex) [.node (.term listIndex) children]]

/-- The terms of the language, but for the name of the list. -/
def terms (name : String) : Array Term := #[
  { name := "Row", kind := .rule (some (.term listIndex)) },
  letter.entry.toTerm,
  comma.entry.toTerm,
  { name, kind := .rule (some letters), flags := .ofList [.list] }]

set_option maxRecDepth 2048 in
/-- Besides the lexicon, only the terms matter for the tree of a text. -/
theorem parse?_of_lexicon {language : Language} (keyTerms : KeyTermTable) (name : String)
    (h : language = ⟨"Rows", terms name, keyTerms, rowIndex, []⟩)
    (hlexicon : language.lexicon = ⟨[","], [], []⟩) :
    language.parse? "x,x," = some ⟨some document, []⟩ := by
  rw [Language.parse?, Language.matchDocument]
  simp only [hlexicon]
  subst h
  clear hlexicon
  with_unfolding_all rfl

/-- The names of the terms are of no account but for that of the list. -/
theorem terms_eq : draft.terms = terms list.name := by
  simp [Draft.terms, draft, terms, list, letters, row, NodeDeclaration.pending]

/-- Letters with a comma behind each of them are accepted. -/
theorem parse?_eq : built.language.parse? "x,x," = some ⟨some document, []⟩ := by
  refine parse?_of_lexicon draft.keyTerms list.name ?_ lexicon_eq
  rw [← terms_eq]
  rfl

/-- The text is read with a source of its own. -/
def reading : Reading :=
  built.reading "x,x," "s"

/-- The terms of the language have these numbers. -/
theorem term?_eq (index : TermIndex) :
    built.language.term? index = (terms list.name)[index.value]? := by
  rw [← terms_eq]
  rfl

/-- The list is visited as the only part of the row. -/
theorem visits_list : reading.Visits document 1 0 [] (.node (.term listIndex) children) := by
  have hrow : reading.term (.term rowIndex) =
      .ok { name := "Row", kind := .rule (some (.term listIndex)) } :=
    Reading.term_of_term? (term?_eq rowIndex)
  have hroot : reading.Visits document 0 0 [] (.node (.term rowIndex) _) :=
    @Reading.Visits.root reading .document [] _ _ [] nofun
  exact @Reading.Visits.part reading document 0 0 [] _ [] _ [] _ hroot hrow (by decide) rfl

/-- A letter is made by its key term. -/
theorem payloadType_letter {depth offset : ℕ} {sub : Tree} {node : Node}
    (hsub : sub.kind = .term letterIndex) (h : reading.node depth offset sub = .ok (some node)) :
    node.payloadType = .text ∧ node.hasValue = true := by
  obtain ⟨occurrence, _, hmake⟩ := Reading.exists_hands_of_node h
  have hmaker : reading.maker? sub.kind = some (.key (.text "x") none) := by
    rw [hsub]
    with_unfolding_all rfl
  rw [hmaker] at hmake
  obtain rfl := Except.ok.inj hmake
  exact ⟨rfl, rfl⟩

/-- The node of a letter at a column. -/
def letterNode (column : ℕ) : Node :=
  .key ⟨0, column, column, "s"⟩ (.text "x") "x" "x" .none none

/-- The node of the list has those of the letters, and no commas. -/
theorem node_list : reading.node 1 0 (.node (.term listIndex) children) =
    .ok (some (.list ⟨0, 0, 0, "s"⟩ .text [letterNode 0, letterNode 2])) := by
  with_unfolding_all rfl

end LetterRow

/-- The list of two letters, each with a comma behind it. -/
theorem list_of_visits_letters :
    LetterRow.built.language.parse? "x,x," = some ⟨some LetterRow.document, []⟩ ∧
      LetterRow.reading.Visits LetterRow.document 1 0 []
        (.node (.term LetterRow.listIndex) LetterRow.children) ∧
      ∃ nodes, LetterRow.reading.node 1 0 (.node (.term LetterRow.listIndex) LetterRow.children) =
          .ok (some (.list ⟨0, 0, 0, "s"⟩ .text nodes)) ∧
        nodes = [LetterRow.letterNode 0, LetterRow.letterNode 2] ∧
        (ListReader.mk .text nodes).toList.map some = nodes.map Node.payload? ∧
        (Tree.partKinds LetterRow.children).count (.term LetterRow.commaIndex) = nodes.length := by
  obtain ⟨events, hrun⟩ := LetterRow.exists_run
  obtain ⟨nodes, hlist, _, hread, _, _, hcount⟩ := list_of_visits hrun LetterRow.known?_list rfl
    (fun term hterm => by
      obtain rfl := Option.some.inj ((LetterRow.term?_eq LetterRow.letterIndex).symm.trans hterm)
      decide)
    (fun d hd => by
      obtain rfl := Option.mem_some.mp hd
      exact ⟨_, ",", LetterRow.term?_eq LetterRow.commaIndex, rfl, by decide⟩)
    LetterRow.parse?_eq rfl (fun _ _ _ _ _ _ hsub h => LetterRow.payloadType_letter hsub h)
    LetterRow.visits_list LetterRow.node_list
  injection hlist with _ _ hnodes
  subst hnodes
  refine ⟨LetterRow.parse?_eq, LetterRow.visits_list, _, LetterRow.node_list, rfl, hread, ?_⟩
  -- There are as many commas as letters: the last one stands behind the last letter.
  rcases hcount (List.cons_ne_nil _ _) LetterRow.commaIndex rfl with hcount | ⟨_, hcount⟩
  · exact absurd hcount (by decide)
  · exact hcount

end TypedGrammar
