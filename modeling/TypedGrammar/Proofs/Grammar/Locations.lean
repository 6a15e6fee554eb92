import TypedGrammar.Proofs.Derivation.Text
import TypedGrammar.Proofs.Grammar.Positions

/-!
# Locations

Where the occurrences in an accepted text are located: a token where its text stands, and a rule at
its first token that is not trivia.  A rule without tokens is located where the token before it
ends, since trivia is never left behind: it stands directly before the token it belongs to.  So
parts that follow each other are located in this order.
-/

namespace TypedGrammar

namespace Tree

variable {tokens more : List Token} {trees : List Tree}

/-! ## Trivia before tokens -/

/-- Some tokens are settled if no trivia is left at their end. -/
def Settled (tokens : List Token) : Prop :=
  ∀ last ∈ tokens.getLast?, last.kind ≠ .trivia

theorem settled_nil : Settled [] :=
  nofun

theorem settled_singleton {token : Token} (h : token.kind ≠ .trivia) : Settled [token] := by
  rintro last hlast
  obtain rfl := Option.some.inj hlast
  exact h

/-- Only the last ones of some tokens matter. -/
theorem Settled.append (h : more = [] → Settled tokens) (hmore : Settled more) :
    Settled (tokens ++ more) := by
  intro last hlast
  rw [List.getLast?_append, Option.mem_def, Option.or_eq_some_iff] at hlast
  rcases hlast with hlast | ⟨hnone, hlast⟩
  · exact hmore last hlast
  · exact h (List.getLast?_eq_none_iff.mp hnone) last hlast

/-- Settled tokens that are all trivia are none. -/
theorem Settled.eq_nil (h : Settled tokens) (htrivia : ∀ token ∈ tokens, token.kind = .trivia) :
    tokens = [] := by
  rcases List.eq_nil_or_concat tokens with hnil | ⟨others, last, rfl⟩
  · exact hnil
  · have hlast : last.kind = .trivia := htrivia last (by simp)
    exact absurd hlast (h last (by simp))

/-- Trees are orderly if each trivia stands directly before a token, next to it. -/
inductive Orderly : List Tree → Prop
  | nil : Orderly []
  | token {kind text rest} : kind ≠ .trivia → Orderly rest → Orderly (.token kind text :: rest)
  | trivia {skipped kind text rest} :
      kind ≠ .trivia → Orderly rest →
      Orderly (.token .trivia skipped :: .token kind text :: rest)
  | node {kind children rest} :
      Orderly children → Orderly rest → Orderly (.node kind children :: rest)

/-- Trees in order may be followed by others in order. -/
theorem Orderly.append {others : List Tree} (h : Orderly trees) (hothers : Orderly others) :
    Orderly (trees ++ others) := by
  induction h with
  | nil => exact hothers
  | token hkind _ ih => exact .token hkind ih
  | trivia hkind _ ih => exact .trivia hkind ih
  | node hchildren _ _ ih => exact .node hchildren ih

/-- Orderly trees leave no trivia behind. -/
theorem Orderly.settled (h : Orderly trees) : Settled (tokensOfAll trees) := by
  induction h with
  | nil => exact settled_nil
  | token hkind _ ih => exact .append (fun _ => settled_singleton hkind) ih
  | @trivia skipped kind text rest hkind _ ih =>
    have htoken : Settled ([⟨kind, text⟩] ++ tokensOfAll rest) :=
      .append (fun _ => settled_singleton hkind) ih
    have htrivia : Settled ([⟨.trivia, skipped⟩] ++ ([⟨kind, text⟩] ++ tokensOfAll rest)) :=
      .append nofun htoken
    exact htrivia
  | node _ _ ihChildren ihRest => exact .append (fun _ => ihChildren) ihRest

/-- Before and below a node there are orderly trees: no trivia is cut off from its token. -/
theorem Orderly.of_node {kind : TreeKind} {front children rest : List Tree}
    (h : Orderly (front ++ .node kind children :: rest)) : Orderly front ∧ Orderly children := by
  generalize hall : front ++ .node kind children :: rest = trees at h
  induction h generalizing front with
  | nil => simp at hall
  | token hkind _ ih =>
    rcases List.append_eq_cons_iff.mp hall with ⟨_, hcons⟩ | ⟨front, rfl, hrest⟩
    · cases hcons
    · obtain ⟨hfront, hchildren⟩ := ih hrest.symm
      exact ⟨.token hkind hfront, hchildren⟩
  | trivia hkind _ ih =>
    rcases List.append_eq_cons_iff.mp hall with ⟨_, hcons⟩ | ⟨front, rfl, hrest⟩
    · cases hcons
    · rcases List.append_eq_cons_iff.mp hrest.symm with ⟨_, hcons⟩ | ⟨front, rfl, hothers⟩
      · cases hcons
      · obtain ⟨hfront, hchildren⟩ := ih hothers.symm
        exact ⟨.trivia hkind hfront, hchildren⟩
  | node hbelow _ _ ih =>
    rcases List.append_eq_cons_iff.mp hall with ⟨rfl, hcons⟩ | ⟨front, rfl, hrest⟩
    · injection hcons with hnode
      injection hnode with _ hsame
      exact ⟨.nil, hsame ▸ hbelow⟩
    · obtain ⟨hfront, hchildren⟩ := ih hrest.symm
      exact ⟨.node hbelow hfront, hchildren⟩

/-! ## First tokens -/

/-- Behind so many bytes of trivia stands the first token that is not trivia. -/
def FirstAt (tokens : List Token) (n : ℕ) : Prop :=
  ∃ trivia token rest, tokens = trivia ++ token :: rest ∧
    (∀ skipped ∈ trivia, skipped.kind = .trivia) ∧ token.kind ≠ .trivia ∧ n = extent trivia

/-- The first token that is not trivia is found, if there is one. -/
theorem firstTokenOfAll?_cases_of {offset : ℕ}
    (h : ∀ tree ∈ trees, ∀ offset,
      (∃ n, FirstAt tree.tokens n ∧ tree.firstToken? offset = some (offset + n)) ∨
        (∀ token ∈ tree.tokens, token.kind = .trivia) ∧ tree.firstToken? offset = none) :
    (∃ n, FirstAt (tokensOfAll trees) n ∧ firstTokenOfAll? offset trees = some (offset + n)) ∨
      (∀ token ∈ tokensOfAll trees, token.kind = .trivia) ∧
        firstTokenOfAll? offset trees = none := by
  induction trees generalizing offset with
  | nil => exact Or.inr ⟨nofun, rfl⟩
  | cons tree rest ih =>
    rw [tokensOfAll, firstTokenOfAll?]
    rcases h tree List.mem_cons_self offset with
      ⟨n, ⟨trivia, token, others, htokens, htrivia, htoken, hn⟩, hfirst⟩ | ⟨htrivia, hfirst⟩
    · refine Or.inl ⟨n, ⟨trivia, token, others ++ tokensOfAll rest, ?_, htrivia, htoken, hn⟩, ?_⟩
      · rw [htokens, List.append_assoc, List.cons_append]
      · rw [hfirst]
    · rw [hfirst]
      rcases @ih (offset + tree.byteLength) fun t ht => h t (List.mem_cons_of_mem _ ht) with
        ⟨n, ⟨skipped, token, others, htokens, hskipped, htoken, hn⟩, hrest⟩ | ⟨hrest, hnone⟩
      · refine Or.inl ⟨tree.byteLength + n,
          ⟨tree.tokens ++ skipped, token, others, ?_, ?_, htoken, ?_⟩, ?_⟩
        · rw [htokens, List.append_assoc]
        · exact fun t ht => (List.mem_append.mp ht).elim (htrivia t) (hskipped t)
        · rw [extent_append, byteLength_eq_extent, hn]
        · rw [← Nat.add_assoc]
          exact hrest
      · exact Or.inr ⟨fun t ht => (List.mem_append.mp ht).elim (htrivia t) (hrest t), hnone⟩

/-- The first token that is no trivia is found, if there is any. -/
theorem firstToken?_cases (tree : Tree) (offset : ℕ) :
    (∃ n, FirstAt tree.tokens n ∧ tree.firstToken? offset = some (offset + n)) ∨
      (∀ token ∈ tree.tokens, token.kind = .trivia) ∧ tree.firstToken? offset = none := by
  induction tree generalizing offset with
  | token kind text =>
    rw [firstToken?]
    by_cases hkind : kind = .trivia
    · rw [if_pos hkind]
      exact Or.inr ⟨fun token htoken => by rw [List.mem_singleton.mp htoken, hkind], rfl⟩
    · rw [if_neg hkind]
      exact Or.inl ⟨0, ⟨[], ⟨kind, text⟩, [], rfl, nofun, hkind, extent_nil.symm⟩, rfl⟩
  | node kind children ih =>
    rw [firstToken?, tokens]
    exact firstTokenOfAll?_cases_of ih

/-- The first token begins within the tokens. -/
theorem FirstAt.le {n : ℕ} (h : FirstAt tokens n) : n ≤ extent tokens := by
  obtain ⟨trivia, token, rest, rfl, _, _, rfl⟩ := h
  rw [extent_append]
  exact Nat.le_add_right _ _

/-- **Places of occurrences.**  What consists of some tokens, with others before it, begins at the
first token that is not trivia; if it has no tokens at all, it begins where the last token before it
ends. -/
inductive BeginsAt (before below : List Token) : ℕ → Prop
  | token {n} : FirstAt below n → BeginsAt before below (extent before + n)
  | nothing : below = [] → Settled before → BeginsAt before below (extent before)

end Tree

open TypedGrammar.Tree

namespace Language

variable {language : Language} {room : ℕ} {shapes : List Shape} {start stop : Cursor}
  {trees : List Tree}

/-- What is derived is orderly: trivia comes with the token behind it. -/
theorem Derives.orderly (h : language.Derives room shapes start trees stop) : Orderly trees := by
  induction h with
  | done => exact .nil
  | unfold _ _ ih => exact ih
  | @token _ index _ _ text _ start middle _ rest _ _ _ _ _ _ ih =>
    have hkind : TreeKind.term index ≠ .trivia := nofun
    rcases skipped_cases start middle with hnone | ⟨trivia, hone⟩
    · rw [hnone]
      exact .token hkind ih
    · rw [hone]
      exact .trivia hkind ih
  | @rule _ index term _ _ _ children _ _ _ _ _ _ ihChildren ihRest =>
    rw [ruleTrees]
    split
    · exact ihChildren.append ihRest
    · exact .node ihChildren ihRest

/-- Before and below a node of the document of an accepted text there are orderly trees. -/
theorem orderly_of_parse? {text : String} {parse : Parse} {kind inner : TreeKind}
    {front children rest : List Tree} (h : language.parse? text = some parse)
    (htree : parse.tree = some (.node kind (front ++ .node inner children :: rest))) :
    Orderly front ∧ Orderly children := by
  obtain ⟨trees, middle, stop, htrees, _, _, hdocument⟩ := derives_of_parse? h htree
  injection hdocument with _ hall
  -- The node is none of the trivia behind the root.
  rcases List.append_eq_append_iff.mp hall with ⟨more, rfl, hmore⟩ | ⟨more, rfl, hmore⟩
  · cases more with
    | nil =>
      obtain ⟨text, htoken⟩ := mem_skipped (hmore ▸ List.mem_cons_self)
      cases htoken
    | cons tree others =>
      obtain ⟨rfl, _⟩ := List.cons.inj hmore
      exact htrees.orderly.of_node
  · have hmem : .node inner children ∈ skipped middle stop := by
      rw [hmore]
      exact List.mem_append_right _ List.mem_cons_self
    obtain ⟨text, htoken⟩ := mem_skipped hmem
    cases htoken

/-- A language about which there is no message as serious as an error has texts for its key
terms. -/
theorem hasKeyTexts_of_diagnose
    (h : Diagnostic.anyReaches .error language.diagnose = false) : language.HasKeyTexts := by
  intro term hterm hkind
  have hmessage : ∃ message, Diagnosis.termMessage? term = some message ∧
      message.severity = .error := by
    rw [Diagnosis.termMessage?, hkind]
    exact ⟨_, rfl, rfl⟩
  obtain ⟨message, hmessage, hsevere⟩ := hmessage
  have hmem : message ∈ language.diagnose := by
    unfold diagnose
    refine List.mem_append_left _ (List.mem_append_left _ (List.mem_append_left _
      (List.mem_append_left _ ?_)))
    exact List.mem_filterMap.mpr ⟨term, Array.mem_toList_iff.mpr hterm, hmessage⟩
  have hreaches := List.any_eq_false.mp h message hmem
  rw [hsevere] at hreaches
  exact hreaches rfl

end Language

namespace Reading

variable {reading : Reading} {document sub tree : Tree} {depth offset : ℕ} {before : List Token}
  {occurrence : Occurrence} {node : Node} {kind : TreeKind} {children : List Tree}
  {text : String} {parse : Parse}

/-- Where reading comes to the node of a rule, no trivia is left before it or at its end. -/
theorem Visits.settled (hparse : reading.language.parse? text = some parse)
    (htree : parse.tree = some document)
    (h : reading.Visits document depth offset before (.node kind children)) :
    Settled before ∧ Orderly children := by
  generalize hsub : Tree.node kind children = sub at h
  induction h generalizing kind children with
  | root _ =>
    obtain ⟨hfront, hbelow⟩ := Language.orderly_of_parse? hparse htree
    injection hsub with _ hsame
    exact ⟨hfront.settled, hsame ▸ hbelow⟩
  | part _ _ _ _ ih =>
    subst hsub
    obtain ⟨hbefore, hbelow⟩ := ih htree rfl
    obtain ⟨hfront, hchildren⟩ := hbelow.of_node
    exact ⟨.append (fun _ => hbefore) hfront.settled, hchildren⟩

/-- A tree is located behind what stands before it, and not behind its end. -/
theorem offset_le_locateTree (reading : Reading) (offset : ℕ) (tree : Tree) :
    offset ≤ (reading.locateTree offset tree).offset ∧
      (reading.locateTree offset tree).offset ≤ offset + tree.byteLength := by
  rw [byteLength_eq_extent]
  rcases firstToken?_cases tree offset with ⟨n, hfirst, hfound⟩ | ⟨_, hnone⟩
  · have hn := hfirst.le
    rw [locateTree, hfound]
    exact ⟨Nat.le_add_right _ _, Nat.add_le_add_left hn _⟩
  · rw [locateTree, hnone, byteLength_eq_extent]
    exact ⟨Nat.le_add_right _ _, le_rfl⟩

/-- What a maker is given is located where the tree is. -/
theorem Hands.location_eq (h : reading.Hands depth offset tree occurrence) :
    occurrence.location = reading.locateTree offset tree := by
  cases h with
  | @token kind _ _ _ hterm _ _ _ =>
    -- What stands for a term is not trivia.
    have hsolid : kind ≠ .trivia := by
      rintro rfl
      cases hterm
    rw [locateTree, firstToken?, if_neg hsolid]
    rfl
  | rule => rfl

end Reading

/-- Constructors of nodes take the location that they are given. -/
theorem Node.location_ofOptional (location : Location) (inner : Option Node) :
    (Node.ofOptional location inner).location = location := by
  cases inner <;> rfl

/-- Braces are located at their occurrence. -/
theorem Occurrence.location_toBrace (occurrence : Occurrence) :
    occurrence.toBrace.location = occurrence.location := by
  unfold Occurrence.toBrace
  split
  · split <;> rfl
  · rfl

/-- A node has the location of the occurrence that it was made from, or is one of those below it. -/
theorem Maker.location_of_make {maker : Maker} {occurrence : Occurrence} {node : Node}
    (h : maker.make occurrence = .ok node) :
    node.location = occurrence.location ∨ node ∈ occurrence.nodes := by
  cases maker with
  | sequence =>
    obtain rfl := Except.ok.inj h
    exact Or.inl rfl
  | optional =>
    obtain rfl := Except.ok.inj h
    exact Or.inl (Node.location_ofOptional _ _)
  | brace =>
    obtain rfl := Except.ok.inj h
    exact Or.inl occurrence.location_toBrace
  | list element =>
    obtain rfl := Except.ok.inj h
    exact Or.inl rfl
  | first =>
    rw [make] at h
    split at h
    · next first rest hnodes =>
      obtain rfl := Except.ok.inj h
      rw [hnodes]
      exact Or.inr List.mem_cons_self
    · cases h
  | key value precedence =>
    obtain rfl := Except.ok.inj h
    exact Or.inl rfl
  | constant type =>
    rw [make] at h
    split at h
    · obtain ⟨value, _, rfl⟩ := map_eq_ok h
      exact Or.inl rfl
    · cases h
  | identifier symbol =>
    obtain ⟨value, _, rfl⟩ := map_eq_ok h
    exact Or.inl rfl
  | literal read =>
    obtain ⟨value, _, rfl⟩ := map_eq_ok h
    exact Or.inl rfl
  | declared owner value =>
    obtain ⟨value, _, rfl⟩ := map_eq_ok h
    exact Or.inl rfl

namespace Tree

/-- Trees that follow each other do not overlap. -/
theorem pairwise_placed (offset : ℕ) (trees : List Tree) :
    (placed offset trees).Pairwise fun first second =>
      first.1 + first.2.byteLength ≤ second.1 := by
  induction trees generalizing offset with
  | nil => exact .nil
  | cons tree rest ih =>
    refine .cons (fun place hplace => ?_) (ih _)
    obtain ⟨front, _, _, hoffset⟩ := mem_placed_iff.mp hplace
    show offset + tree.byteLength ≤ place.1
    omega

/-- Parts are placed one behind the other. -/
theorem pairwise_placedParts (offset : ℕ) (trees : List Tree) :
    (placedParts offset trees).Pairwise fun first second =>
      first.1 + first.2.byteLength ≤ second.1 :=
  (pairwise_placed offset trees).filter _

end Tree

namespace Reading

variable {reading : Reading} {document sub tree : Tree} {depth offset : ℕ} {before : List Token}
  {occurrence : Occurrence} {node : Node} {trees : List Tree} {parts : List Part}

/-- The nodes of some parts lie between the ends of the trees that they were read from, if those of
each tree do. -/
theorem offset_le_of_parts_of
    (h : ∀ tree ∈ trees, ∀ depth offset node, reading.node depth offset tree = .ok (some node) →
      offset ≤ node.location.offset ∧ node.location.offset ≤ offset + tree.byteLength)
    (hparts : reading.parts depth offset trees = .ok parts)
    (hnode : node ∈ parts.filterMap (·.node)) :
    offset ≤ node.location.offset ∧ node.location.offset ≤ offset + byteLengthOfAll trees := by
  obtain ⟨part, hpart, hsome⟩ := List.mem_filterMap.mp hnode
  obtain ⟨place, hplace, _, hread⟩ := exists_of_forall₂_right (forall₂_of_parts hparts) hpart
  obtain ⟨⟨front, rest, htrees, hoffset⟩, _⟩ := mem_placedParts_iff.mp hplace
  have hmem : place.2 ∈ trees := by
    rw [htrees]
    exact List.mem_append_right _ List.mem_cons_self
  have hlength : byteLengthOfAll trees =
      byteLengthOfAll front + (place.2.byteLength + byteLengthOfAll rest) := by
    rw [htrees, byteLengthOfAll_append, byteLengthOfAll]
  have hbounds := h place.2 hmem depth place.1 node (hsome ▸ hread)
  omega

/-- A node lies between the ends of the tree that it was read from. -/
theorem offset_le_of_node (h : reading.node depth offset tree = .ok (some node)) :
    offset ≤ node.location.offset ∧ node.location.offset ≤ offset + tree.byteLength := by
  induction tree generalizing depth offset node with
  | token kind text =>
    obtain ⟨occurrence, hhands, hmake⟩ := exists_hands_of_node h
    rcases Maker.location_of_make hmake with hlocation | hmem
    · rw [hlocation, hhands.location_eq]
      exact reading.offset_le_locateTree offset _
    · cases hhands with
      | token => cases hmem
  | node kind children ih =>
    obtain ⟨occurrence, hhands, hmake⟩ := exists_hands_of_node h
    rcases Maker.location_of_make hmake with hlocation | hmem
    · rw [hlocation, hhands.location_eq]
      exact reading.offset_le_locateTree offset _
    · cases hhands with
      | rule _ _ _ hparts =>
        exact offset_le_of_parts_of (fun child hchild _ _ _ => ih child hchild) hparts hmem

/-- Parts that follow each other have nodes that follow each other. -/
theorem pairwise_of_parts (h : reading.parts depth offset trees = .ok parts) :
    (parts.filterMap (·.node)).Pairwise (·.location.offset ≤ ·.location.offset) := by
  induction trees generalizing offset parts with
  | nil =>
    rw [Reading.parts] at h
    rw [← Except.ok.inj h]
    exact .nil
  | cons tree rest ih =>
    cases htrivia : tree.isTrivia with
    | true =>
      rw [Reading.parts, if_pos htrivia] at h
      exact ih h
    | false =>
      obtain ⟨part, others, _, hread, hothers, rfl⟩ := parts_cons_ok htrivia h
      cases hpart : part.node with
      | none =>
        rw [List.filterMap_cons_none hpart]
        exact ih hothers
      | some first =>
        rw [List.filterMap_cons_some hpart]
        refine .cons (fun second hsecond => ?_) (ih hothers)
        have hfirst := offset_le_of_node (hpart ▸ hread)
        have hbehind :=
          offset_le_of_parts_of (fun _ _ _ _ _ => offset_le_of_node) hothers hsecond
        omega

/-- Makers of trees that follow each other are given occurrences that follow each other. -/
theorem pairwise_of_hands (reading : Reading) (depth offset : ℕ) (trees : List Tree) :
    (placedParts offset trees).Pairwise fun first second =>
      ∀ occurrence next, reading.Hands depth first.1 first.2 occurrence →
        reading.Hands depth second.1 second.2 next →
          occurrence.location.offset ≤ next.location.offset := by
  refine (pairwise_placedParts offset trees).imp ?_
  intro first second hle occurrence next hfirst hsecond
  rw [hfirst.location_eq, hsecond.location_eq]
  have hend := (reading.offset_le_locateTree first.1 first.2).2
  have hstart := (reading.offset_le_locateTree second.1 second.2).1
  omega

end Reading

section Locations

variable {built : BuiltGrammar} {text source : String} {parse : Parse} {tree sub : Tree}
  {depth offset : ℕ} {before : List Token} {occurrence : Occurrence}

/-- **Locations.**  In a grammar without messages as serious as errors, each occurrence in an
accepted text that is given to a maker is located by the lines of this text: a token where its text
stands, a rule where its first token that is not trivia stands, or without tokens where the token
before it ends.  The occurrences and the nodes below a rule are located in the order of the text. -/
theorem BuiltGrammar.location_of_hands
    (hquiet : Diagnostic.anyReaches .error built.language.diagnose = false)
    (hparse : built.language.parse? text = some parse) (htree : parse.tree = some tree)
    (hvisits : (built.reading text source).Visits tree depth offset before sub)
    (hhands : (built.reading text source).Hands depth offset sub occurrence) :
    (∃ behind, tree.tokens = before ++ sub.tokens ++ behind ∧
        text = String.join (before.map Token.text) ++ sub.text ++
          String.join (behind.map Token.text)) ∧
      occurrence.location =
        .resolve (LineTable.ofText text) occurrence.location.offset source ∧
      (∀ shown ∈ occurrence.token, sub = .token sub.kind shown ∧
        occurrence.location.offset = extent before) ∧
      (occurrence.token = none → BeginsAt before sub.tokens occurrence.location.offset) ∧
      occurrence.nodes.Pairwise (·.location.offset ≤ ·.location.offset) ∧
      ∀ kind children, sub = .node kind children →
        (placedParts offset children).Pairwise fun first second => ∀ former latter,
          (built.reading text source).Hands (depth + 1) first.1 first.2 former →
            (built.reading text source).Hands (depth + 1) second.1 second.2 latter →
              former.location.offset ≤ latter.location.offset := by
  have hoffset : offset = extent before := hvisits.offset_eq
  have htext : tree.text = text :=
    (Language.hasKeyTexts_of_diagnose hquiet).text_eq hparse htree
  obtain ⟨behind, htokens⟩ := hvisits.tokens_eq
  -- The text is that of the tokens, so that places in the tree are places in the text.
  refine ⟨⟨behind, htokens, ?_⟩, ?_, ?_, ?_, ?_, fun kind children _ => ?_⟩
  · rw [← htext, text_eq_join tree, htokens, List.map_append, List.map_append, String.join_append,
      String.join_append, ← text_eq_join]
  · rw [hhands.location_eq]
    rfl
  · intro shown hshown
    cases hhands with
    | token =>
      obtain rfl := Option.some.inj hshown
      exact ⟨rfl, hoffset⟩
    | rule => cases hshown
  · intro hnone
    rw [hhands.location_eq]
    cases hhands with
    | token => cases hnone
    | @rule kind children _ _ _ _ _ _ =>
      obtain ⟨hbefore, hbelow⟩ := hvisits.settled hparse htree
      rcases firstToken?_cases (.node kind children) offset with
        ⟨n, hfirst, hfound⟩ | ⟨htrivia, hfound⟩
      · rw [Reading.locateTree, hfound, hoffset]
        exact .token hfirst
      · -- Where all tokens are trivia there are none.
        have hempty : (Tree.node kind children).tokens = [] := hbelow.settled.eq_nil htrivia
        have hlength : (Tree.node kind children).byteLength = 0 := by
          rw [byteLength_eq_extent, hempty, extent_nil]
        rw [Reading.locateTree, hfound, hlength, hoffset]
        exact .nothing hempty hbefore
  · cases hhands with
    | token => exact .nil
    | rule _ _ _ hparts => exact Reading.pairwise_of_parts hparts
  · exact (built.reading text source).pairwise_of_hands (depth + 1) offset children

end Locations

/-! ### The second of two items -/

namespace SignedSums

/-- What stands before the second item. -/
def front : List Tree :=
  [itemTree, .token (.term signIndex) "+"]

/-- The second item is visited at its place. -/
theorem visits_secondItem :
    (built.reading "x+x" "s").Visits document 1 2 (tokensOfAll front) itemTree := by
  have hroot : (built.reading "x+x" "s").Visits document 0 0 []
      (.node (.term sumIndex) (front ++ itemTree :: [])) :=
    @Reading.Visits.root _ .document [] _ _ [] nofun
  have hterm : (built.reading "x+x" "s").term (.term sumIndex) = .ok (entries[0].toTerm) := by
    with_unfolding_all rfl
  exact hroot.part hterm (by decide) rfl

/-- The second item is located at its letter. -/
theorem hands_secondItem : ∃ parts, (built.reading "x+x" "s").Hands 1 2 itemTree
    ⟨entries[1].toTerm, ⟨0, 2, 2, "s"⟩, none, parts⟩ := by
  have hterm : (built.reading "x+x" "s").term (.term itemIndex) = .ok (entries[1].toTerm) := by
    with_unfolding_all rfl
  have hlocation : (built.reading "x+x" "s").locateTree 2 itemTree = ⟨0, 2, 2, "s"⟩ := by
    decide +kernel
  rw [← hlocation]
  exact ⟨_, .rule hterm (by decide) (by decide) (by with_unfolding_all rfl)⟩

end SignedSums

/-- The second item is located behind the first one and the sign. -/
theorem BuiltGrammar.location_of_hands_secondItem :
    Diagnostic.anyReaches .error SignedSums.built.language.diagnose = false ∧
      SignedSums.built.language.parse? "x+x" = some ⟨some SignedSums.document, []⟩ ∧
      (SignedSums.built.reading "x+x" "s").Visits SignedSums.document 1 2
        (tokensOfAll SignedSums.front) SignedSums.itemTree ∧
      ∃ parts, (SignedSums.built.reading "x+x" "s").Hands 1 2 SignedSums.itemTree
          ⟨SignedSums.entries[1].toTerm, ⟨0, 2, 2, "s"⟩, none, parts⟩ ∧
        BeginsAt (tokensOfAll SignedSums.front) SignedSums.itemTree.tokens 2 ∧
        (parts.filterMap (·.node)).Pairwise (·.location.offset ≤ ·.location.offset) := by
  have hquiet : Diagnostic.anyReaches .error SignedSums.built.language.diagnose = false := by
    rw [SignedSums.diagnose_eq]
    rfl
  obtain ⟨parts, hhands⟩ := SignedSums.hands_secondItem
  obtain ⟨_, _, _, hbegins, hnodes, _⟩ := location_of_hands hquiet SignedSums.parse?_eq rfl
    SignedSums.visits_secondItem hhands
  exact ⟨hquiet, SignedSums.parse?_eq, SignedSums.visits_secondItem, parts, hhands, hbegins rfl,
    hnodes⟩

end TypedGrammar
