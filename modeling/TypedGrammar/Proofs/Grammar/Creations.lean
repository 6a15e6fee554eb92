import TypedGrammar.Proofs.Grammar.Makings

/-!
# Where nodes are made

The positions of a tree at which a maker is called, from the bottom up: those of tokens and rules
that are kept and lie below no rule without nodes.  A tree that is read without failure has its
calls at these positions, one at each, and every rule is given the nodes that were made of the
parts below it, in the order of the text.
-/

namespace TypedGrammar

namespace Reading

open TypedGrammar.Tree

/-- Whether the term of a kind has a flag. -/
def flagged (reading : Reading) (kind : TreeKind) (flag : Flag) : Bool :=
  (reading.language.termFor? kind).any (·.flags.has flag)

/-- A tree of which a node is made, if it is not hidden: a token that is neither punctuation nor
without node and has a maker, and a rule that is not without node. -/
def makes (reading : Reading) : Tree → Bool
  | .token kind _ =>
    !reading.flagged kind .punctuation && !reading.flagged kind .noNode &&
      (reading.maker? kind).isSome
  | .node kind _ => !reading.flagged kind .noNode

/-- A position below a rule without nodes. -/
def IsHidden (reading : Reading) (tree : Tree) (path : List ℕ) : Prop :=
  ∃ above below sub, below ≠ [] ∧ path = above ++ below ∧ tree.at? above = some sub ∧
    reading.flagged sub.kind .noNode = true

mutual

/-- The positions in a tree at which nodes are made, in the order in which they are made. -/
def creations (reading : Reading) : Tree → List (List ℕ)
  | .token kind text => if reading.makes (.token kind text) then [[]] else []
  | .node kind children =>
    if reading.flagged kind .noNode then [] else creationsOfAll reading 0 children ++ [[]]

/-- The positions in some trees at which nodes are made.  The first of the trees has a number. -/
def creationsOfAll (reading : Reading) (number : ℕ) : List Tree → List (List ℕ)
  | [] => []
  | tree :: rest =>
    if tree.isTrivia then creationsOfAll reading (number + 1) rest
    else (creations reading tree).map (number :: ·) ++ creationsOfAll reading (number + 1) rest

end

variable {reading : Reading} {tree sub : Tree} {trees children : List Tree} {kind : TreeKind}
  {term : Term} {text : String} {path : List ℕ} {depth offset number : ℕ} {made : Option Node}
  {parts : List Part}

theorem flagged_of_term (h : reading.term kind = .ok term) (flag : Flag) :
    reading.flagged kind flag = term.flags.has flag := by
  rw [Reading.term] at h
  split at h
  · next found hfound =>
    obtain rfl := Except.ok.inj h
    rw [flagged, hfound]
    rfl
  · cases h

/-! ## Positions -/

@[simp] theorem not_isHidden_nil : ¬ reading.IsHidden tree [] := by
  rintro ⟨above, below, sub, hbelow, hpath, _⟩
  exact hbelow (List.append_eq_nil_iff.mp hpath.symm).2

/-- What is below a child is hidden by the rule above, or within the child. -/
theorem isHidden_cons : reading.IsHidden (.node kind children) (number :: path) ↔
    reading.flagged kind .noNode = true ∨
      ∃ child, children[number]? = some child ∧ reading.IsHidden child path := by
  constructor
  · rintro ⟨above, below, sub, hbelow, hpath, hat, hflagged⟩
    rcases List.cons_eq_append_iff.mp hpath with ⟨rfl, _⟩ | ⟨above, rfl, rfl⟩
    · obtain rfl := Option.some.inj hat
      exact Or.inl hflagged
    · obtain ⟨child, hchild, hat⟩ := Option.bind_eq_some_iff.mp hat
      exact Or.inr ⟨child, hchild, above, below, sub, hbelow, rfl, hat, hflagged⟩
  · rintro (hflagged | ⟨child, hchild, above, below, sub, hbelow, rfl, hat, hflagged⟩)
    · exact ⟨[], number :: path, _, List.cons_ne_nil _ _, rfl, rfl, hflagged⟩
    · exact ⟨number :: above, below, sub, hbelow, rfl,
        Option.bind_eq_some_iff.mpr ⟨child, hchild, hat⟩, hflagged⟩

theorem mem_creationsOfAll : path ∈ reading.creationsOfAll number trees ↔
    ∃ place ∈ numberedParts number trees, ∃ inner ∈ reading.creations place.2,
      path = place.1 :: inner := by
  induction trees generalizing number with
  | nil => simp [creationsOfAll, numberedParts]
  | cons tree rest ih =>
    rw [creationsOfAll, numberedParts]
    split
    · exact ih
    · rw [List.mem_append, ih, List.mem_map]
      simp only [List.exists_mem_cons_iff, eq_comm]

/-- **Where nodes are made.**  In a tree all parts of which have terms, nodes are made of what is to
be made into nodes and not hidden. -/
theorem mem_creations (h : reading.language.Names tree) : path ∈ reading.creations tree ↔
    ∃ sub, tree.at? path = some sub ∧ ¬ reading.IsHidden tree path ∧ reading.makes sub = true := by
  induction tree generalizing path with
  | token kind text =>
    rw [creations]
    cases path with
    | nil => simp [at?]
    | cons number path => split <;> simp [at?]
  | node kind children ih =>
    have hnames : ∀ child ∈ children, reading.language.Names child := by
      cases h with
      | node _ hchildren => exact hchildren
    rw [creations]
    cases path with
    | nil =>
      cases hflagged : reading.flagged kind .noNode <;> simp [at?, makes, hflagged]
    | cons number path =>
      cases hflagged : reading.flagged kind .noNode with
      | true => simp [isHidden_cons, hflagged]
      | false =>
        rw [if_neg Bool.false_ne_true, List.mem_append, mem_creationsOfAll]
        simp only [at?, isHidden_cons, hflagged, Bool.false_eq_true, false_or, List.mem_singleton,
          List.cons_ne_nil, or_false]
        constructor
        · rintro ⟨⟨n, child⟩, hplace, inner, hinner, hpath⟩
          obtain ⟨rfl, rfl⟩ := List.cons.inj hpath
          obtain ⟨hchild, _⟩ := mem_numberedParts_zero.mp hplace
          have hmem := List.mem_of_getElem? hchild
          obtain ⟨sub, hat, hshown, hmakes⟩ := (ih child hmem (hnames child hmem)).mp hinner
          refine ⟨sub, Option.bind_eq_some_iff.mpr ⟨child, hchild, hat⟩, ?_, hmakes⟩
          rintro ⟨other, hother, hhidden⟩
          obtain rfl := Option.some.inj (hchild.symm.trans hother)
          exact hshown hhidden
        · rintro ⟨sub, hat, hshown, hmakes⟩
          obtain ⟨child, hchild, hat⟩ := Option.bind_eq_some_iff.mp hat
          have hmem := List.mem_of_getElem? hchild
          have hinner : path ∈ reading.creations child :=
            (ih child hmem (hnames child hmem)).mpr
              ⟨sub, hat, fun hhidden => hshown ⟨child, hchild, hhidden⟩, hmakes⟩
          refine ⟨(number, child), mem_numberedParts_zero.mpr ⟨hchild, ?_⟩, path, hinner,
            rfl⟩
          -- Nothing is made of trivia.
          by_contra htrivia
          rw [Bool.not_eq_false] at htrivia
          cases hnames child hmem with
          | trivia =>
            have hnone : reading.maker? .trivia = none := rfl
            simp [creations, makes, hnone] at hinner
          | token | node => cases htrivia

mutual

/-- No position is counted twice. -/
theorem nodup_creations (reading : Reading) : ∀ tree : Tree, (reading.creations tree).Nodup
  | .token kind text => by
    rw [creations]
    split
    · exact List.nodup_singleton _
    · exact List.nodup_nil
  | .node kind children => by
    rw [creations]
    split
    · exact List.nodup_nil
    · refine List.nodup_append.mpr ⟨nodup_creationsOfAll reading 0 children,
        List.nodup_singleton _, ?_⟩
      intro path hpath other hother
      obtain ⟨place, _, inner, _, rfl⟩ := mem_creationsOfAll.mp hpath
      obtain rfl := List.mem_singleton.mp hother
      exact List.cons_ne_nil _ _

theorem nodup_creationsOfAll (reading : Reading) (number : ℕ) :
    ∀ trees : List Tree, (reading.creationsOfAll number trees).Nodup
  | [] => List.nodup_nil
  | tree :: rest => by
    rw [creationsOfAll]
    split
    · exact nodup_creationsOfAll reading (number + 1) rest
    · refine List.nodup_append.mpr ⟨(nodup_creations reading tree).map List.cons_injective,
        nodup_creationsOfAll reading (number + 1) rest, ?_⟩
      intro path hpath other hother heq
      obtain ⟨inner, _, rfl⟩ := List.mem_map.mp hpath
      obtain ⟨place, hplace, inner', _, rfl⟩ := mem_creationsOfAll.mp hother
      obtain ⟨hnumber, _⟩ := List.cons.inj heq
      have hle := le_of_mem_numberedParts hplace
      omega

end

/-! ## Calls at positions -/

mutual

/-- **Calls at positions.**  A tree that is read without failure has its calls where nodes are
made, in the same order. -/
theorem map_path_makings {depth offset : ℕ} {made : Option Node} : ∀ tree : Tree,
    (reading.record depth offset tree).result = .ok made →
      (reading.record depth offset tree).makings.map Making.path = reading.creations tree
  | .token kind text, h => by
    rw [record] at h ⊢
    rw [creations, makes]
    rcases makings_recordToken h with
      ⟨term, maker, node, hterm, hpunctuation, hnode, hmaker, _, _, hmakings⟩ |
      ⟨_, hmakings, hdropped⟩
    · rw [hmakings, flagged_of_term hterm, flagged_of_term hterm, hpunctuation, hnode, hmaker]
      rfl
    · have hterm : ∃ term, reading.term kind = .ok term := by
        rw [result_recordToken, tokenNode] at h
        obtain ⟨term, hterm, _⟩ := bind_eq_ok h
        exact ⟨term, hterm⟩
      obtain ⟨term, hterm⟩ := hterm
      rw [hmakings, flagged_of_term hterm, flagged_of_term hterm]
      rcases hdropped term hterm with hflag | hflag | hflag <;> simp [hflag]
  | .node kind children, h => by
    obtain ⟨term, hterm, ⟨hnode, _, hmakings⟩ |
        ⟨parts, node, hnode, hparts, _, _, hmakings⟩⟩ := makings_record_node h
    · rw [hmakings, creations, flagged_of_term hterm, if_pos hnode]
      rfl
    · rw [hmakings, creations, flagged_of_term hterm, hnode, if_neg Bool.false_ne_true,
        List.map_append, map_path_makingsOfAll children hparts]
      rfl

theorem map_path_makingsOfAll {depth offset number : ℕ} {parts : List Part} :
    ∀ trees : List Tree, (reading.recordParts depth offset number trees).result = .ok parts →
      (reading.recordParts depth offset number trees).makings.map Making.path =
        reading.creationsOfAll number trees
  | [], _ => by rw [recordParts, creationsOfAll]; rfl
  | tree :: rest, h => by
    cases htrivia : tree.isTrivia with
    | true =>
      rw [recordParts, if_pos htrivia] at h ⊢
      rw [creationsOfAll, if_pos htrivia]
      exact map_path_makingsOfAll rest h
    | false =>
      obtain ⟨part, others, _, hmade, hothers, _, hmakings⟩ := makings_recordParts_cons htrivia h
      rw [hmakings, creationsOfAll, if_neg (Bool.eq_false_iff.mp htrivia), List.map_append,
        map_path_makingsOfAll rest hothers, ← map_path_makings tree hmade, List.map_map,
        List.map_map]
      rfl

end

/-! ## What is handed up -/

/-- The call at the top of a tree makes the node of the tree. -/
theorem made_eq_some_iff {node : Node} (h : (reading.record depth offset tree).result = .ok made) :
    made = some node ↔ ∃ making ∈ (reading.record depth offset tree).makings,
      making.path = [] ∧ making.result = .ok node := by
  cases tree with
  | token kind text =>
    rw [record] at h ⊢
    rcases makings_recordToken h with
      ⟨term, maker, found, _, _, _, _, _, rfl, hmakings⟩ | ⟨rfl, hmakings, _⟩
    · simp [hmakings]
    · simp [hmakings]
  | node kind children =>
    obtain ⟨term, _, ⟨_, rfl, hmakings⟩ | ⟨parts, found, _, hparts, _, rfl, hmakings⟩⟩ :=
      makings_record_node h
    · simp [hmakings]
    · rw [hmakings]
      constructor
      · intro hnode
        exact ⟨_, List.mem_append_right _ List.mem_cons_self, rfl, congrArg Except.ok
          (Option.some.inj hnode)⟩
      · rintro ⟨making, hmaking, hpath, hresult⟩
        rcases List.mem_append.mp hmaking with hmaking | hmaking
        · -- The calls below are not at the top.
          have hmem : making.path ∈ reading.creationsOfAll 0 children := by
            rw [← map_path_makingsOfAll children hparts]
            exact List.mem_map_of_mem hmaking
          obtain ⟨_, _, _, _, hcons⟩ := mem_creationsOfAll.mp hmem
          rw [hpath] at hcons
          cases hcons
        · obtain rfl := List.mem_singleton.mp hmaking
          exact congrArg some (Except.ok.inj hresult)

/-- The calls for some trees are those for each of them: seen from above, those under a number are
the calls for the tree with this number. -/
theorem forall₂_recordParts
    (h : (reading.recordParts depth offset number trees).result = .ok parts) :
    List.Forall₂ (fun place part => reading.term place.2.kind = .ok part.term ∧ ∃ offset',
        (reading.record depth offset' place.2).result = .ok part.node ∧
        ∀ making : Making,
          making.under place.1 ∈ (reading.recordParts depth offset number trees).makings ↔
            making ∈ (reading.record depth offset' place.2).makings)
      (numberedParts number trees) parts ∧
    ∀ making ∈ (reading.recordParts depth offset number trees).makings,
      ∃ place ∈ numberedParts number trees, ∃ inner : Making, making = inner.under place.1 := by
  induction trees generalizing offset number parts with
  | nil =>
    rw [recordParts] at h ⊢
    obtain rfl := Except.ok.inj h
    exact ⟨.nil, fun _ hmaking => absurd hmaking List.not_mem_nil⟩
  | cons tree rest ih =>
    cases htrivia : tree.isTrivia with
    | true =>
      -- Trivia is not numbered, so nothing is recorded for it.
      rw [recordParts, if_pos htrivia] at h ⊢
      rw [numberedParts, if_pos htrivia]
      exact ih h
    | false =>
      obtain ⟨part, others, hterm, hmade, hothers, rfl, hmakings⟩ :=
        makings_recordParts_cons htrivia h
      obtain ⟨hrows, hinner⟩ := ih hothers
      rw [hmakings, numberedParts, if_neg (Bool.eq_false_iff.mp htrivia)]
      -- All that is recorded further on stands under larger numbers.
      have hlater : ∀ place ∈ numberedParts (number + 1) rest, place.1 ≠ number := by
        intro place hplace heq
        have hle := le_of_mem_numberedParts hplace
        omega
      refine ⟨.cons ⟨hterm, offset, hmade, fun making => ?_⟩ ?_, fun making hmaking => ?_⟩
      · rw [List.mem_append, List.mem_map]
        constructor
        · rintro (⟨other, hother, heq⟩ | hbehind)
          · obtain ⟨_, rfl⟩ := Making.under_inj heq
            exact hother
          · obtain ⟨place, hplace, inner, heq⟩ := hinner _ hbehind
            exact absurd (Making.under_inj heq).1.symm (hlater place hplace)
        · exact fun hmaking => Or.inl ⟨making, hmaking, rfl⟩
      · refine ((List.forall₂_and_left _ _).mpr ⟨hlater, hrows⟩).imp ?_
        rintro place part ⟨hplace, hterm, offset', hread, hunder⟩
        refine ⟨hterm, offset', hread, fun making => ?_⟩
        rw [List.mem_append, List.mem_map, ← hunder]
        constructor
        · rintro (⟨other, _, heq⟩ | hbehind)
          · exact absurd (Making.under_inj heq).1.symm hplace
          · exact hbehind
        · exact Or.inr
      · rcases List.mem_append.mp hmaking with hmaking | hmaking
        · obtain ⟨inner, _, rfl⟩ := List.mem_map.mp hmaking
          exact ⟨(number, tree), List.mem_cons_self, inner, rfl⟩
        · obtain ⟨place, hplace, inner, rfl⟩ := hinner making hmaking
          exact ⟨place, List.mem_cons_of_mem _ hplace, inner, rfl⟩

/-- **Accounts.**  Calls account for a tree: they are at the positions where nodes are made, one at
each; what is made there is made by the maker of the term, of what is handed up to it; and what is
handed up to a rule has one part for each tree below it, in the order of the text, with the node
that was made there, if one was. -/
structure IsAccount (reading : Reading) (tree : Tree) (makings : List Making) : Prop where
  once : (makings.map Making.path).Nodup
  called : ∀ path, (∃ making ∈ makings, making.path = path) ↔
    ∃ sub, tree.at? path = some sub ∧ ¬ reading.IsHidden tree path ∧ reading.makes sub = true
  made : ∀ making ∈ makings, ∃ sub node, tree.at? making.path = some sub ∧
    reading.term sub.kind = .ok making.occurrence.term ∧
    ((reading.maker? sub.kind).getD .sequence).make making.occurrence = .ok node ∧
    making.result = .ok node
  handed : ∀ making ∈ makings, ∀ kind children, tree.at? making.path = some (.node kind children) →
    List.Forall₂ (fun place part => reading.term place.2.kind = .ok part.term ∧
        ∀ node, part.node = some node ↔
          ∃ below ∈ makings, below.path = making.path ++ [place.1] ∧ below.result = .ok node)
      (numberedParts 0 children) making.occurrence.parts

/-- A call below a child is a call of the child. -/
theorem exists_under_iff {makings inner : List Making} {result : Except Error Node}
    (h : ∀ making : Making, making.under number ∈ makings ↔ making ∈ inner) :
    (∃ making ∈ makings, making.path = number :: path ∧ making.result = result) ↔
      ∃ making ∈ inner, making.path = path ∧ making.result = result := by
  constructor
  · rintro ⟨⟨_, occurrence, _⟩, hmaking, rfl, rfl⟩
    exact ⟨⟨path, occurrence, _⟩, (h ⟨path, occurrence, _⟩).mp hmaking, rfl, rfl⟩
  · rintro ⟨making, hmaking, rfl, rfl⟩
    exact ⟨making.under number, (h making).mpr hmaking, rfl, rfl⟩

/-- The call for a rule that is shown, and the calls for its children, seen from above. -/
theorem cases_makings_node
    (h : (reading.record depth offset (.node kind children)).result = .ok made) {making : Making}
    (hmaking : making ∈ (reading.record depth offset (.node kind children)).makings) :
    (∃ node, making.path = [] ∧ reading.term kind = .ok making.occurrence.term ∧
        ((reading.maker? kind).getD .sequence).make making.occurrence = .ok node ∧
        making.result = .ok node ∧
        List.Forall₂ (fun place part => reading.term place.2.kind = .ok part.term ∧
            ∀ node, part.node = some node ↔
              ∃ below ∈ (reading.record depth offset (.node kind children)).makings,
                below.path = [place.1] ∧ below.result = .ok node)
          (numberedParts 0 children) making.occurrence.parts) ∨
      ∃ number child offset' inner made', children[number]? = some child ∧
        making = Making.under number inner ∧
        (reading.record (depth + 1) offset' child).result = .ok made' ∧
        inner ∈ (reading.record (depth + 1) offset' child).makings ∧
        ∀ other : Making,
          other.under number ∈ (reading.record depth offset (.node kind children)).makings ↔
            other ∈ (reading.record (depth + 1) offset' child).makings := by
  obtain ⟨term, hterm, ⟨_, _, hmakings⟩ | ⟨parts, node, _, hparts, hmake, _, hmakings⟩⟩ :=
    makings_record_node h
  · rw [hmakings] at hmaking
    exact absurd hmaking List.not_mem_nil
  obtain ⟨hrows, hinner⟩ := forall₂_recordParts hparts
  -- The call for the rule itself is below none of its children.
  have hunder : ∀ (number : ℕ) (other : Making),
      other.under number ∈ (reading.record depth offset (.node kind children)).makings ↔
        other.under number ∈ (reading.recordParts (depth + 1) offset 0 children).makings := by
    intro number other
    rw [hmakings, List.mem_append]
    refine or_iff_left fun hown => ?_
    have hpath := congrArg Making.path (List.mem_singleton.mp hown)
    cases hpath
  rw [hmakings] at hmaking
  rcases List.mem_append.mp hmaking with hbelow | hown
  · obtain ⟨place, hplace, inner, rfl⟩ := hinner making hbelow
    obtain ⟨part, _, _, offset', hread, hmem⟩ := exists_of_forall₂_right hrows.flip hplace
    obtain ⟨hchild, _⟩ := mem_numberedParts_zero.mp hplace
    exact Or.inr ⟨place.1, place.2, offset', inner, part.node, hchild, rfl, hread,
      (hmem inner).mp hbelow, fun other => (hunder place.1 other).trans (hmem other)⟩
  · obtain rfl := List.mem_singleton.mp hown
    refine Or.inl ⟨node, rfl, hterm, hmake, rfl, hrows.imp ?_⟩
    rintro place part ⟨hpart, offset', hread, hmem⟩
    refine ⟨hpart, fun node => ?_⟩
    rw [made_eq_some_iff hread]
    exact (exists_under_iff fun other => (hunder place.1 other).trans (hmem other)).symm

/-- **Reading accounts for the tree.** -/
theorem isAccount_record (hnames : reading.language.Names tree)
    (h : (reading.record depth offset tree).result = .ok made) :
    reading.IsAccount tree (reading.record depth offset tree).makings where
  once := by
    rw [map_path_makings tree h]
    exact nodup_creations reading tree
  called path := by
    rw [← mem_creations hnames, ← map_path_makings tree h, List.mem_map]
  made := by
    clear hnames
    -- Each call below a child is found by the path to it, behind the number of the child.
    induction tree generalizing depth offset made with
    | token kind text =>
      intro making hmaking
      rw [record] at h hmaking
      rcases makings_recordToken h with
        ⟨term, maker, node, hterm, _, _, hmaker, hmake, _, hmakings⟩ | ⟨_, hmakings, _⟩
      · rw [hmakings] at hmaking
        obtain rfl := List.mem_singleton.mp hmaking
        refine ⟨_, node, rfl, hterm, ?_, rfl⟩
        rw [Tree.kind, hmaker]
        exact hmake
      · rw [hmakings] at hmaking
        exact absurd hmaking List.not_mem_nil
    | node kind children ih =>
      intro making hmaking
      rcases cases_makings_node h hmaking with ⟨node, hpath, hterm, hmake, hresult, _⟩ |
        ⟨number, child, offset', inner, made', hchild, rfl, hread, hmem, _⟩
      · exact ⟨_, node, congrArg (Tree.at? _) hpath, hterm, hmake, hresult⟩
      · obtain ⟨sub, node, hat, hmade⟩ := ih child (List.mem_of_getElem? hchild) hread inner hmem
        exact ⟨sub, node, Option.bind_eq_some_iff.mpr ⟨child, hchild, hat⟩, hmade⟩
  handed := by
    clear hnames
    -- What is handed up is known for the calls below, by induction, and for the rule itself.
    induction tree generalizing depth offset made with
    | token kind text =>
      intro making _ _ _ hat
      cases hpath : making.path with
      | nil => rw [hpath] at hat; cases hat
      | cons number path => rw [hpath] at hat; cases hat
    | node kind children ih =>
      intro making hmaking kind' children' hat
      rcases cases_makings_node h hmaking with ⟨node, hpath, _, _, _, hhanded⟩ |
        ⟨number, child, offset', inner, made', hchild, rfl, hread, hmem, hunder⟩
      · rw [hpath] at hat ⊢
        obtain ⟨rfl, rfl⟩ := Tree.node.inj (Option.some.inj hat)
        exact hhanded
      · obtain ⟨found, hfound, hat⟩ := Option.bind_eq_some_iff.mp hat
        obtain rfl := Option.some.inj (hchild.symm.trans hfound)
        refine (ih child (List.mem_of_getElem? hchild) hread inner hmem kind' children' hat).imp ?_
        rintro place part ⟨hterm, hnode⟩
        refine ⟨hterm, fun node => (hnode node).trans ?_⟩
        exact (exists_under_iff hunder).symm

end Reading

end TypedGrammar
