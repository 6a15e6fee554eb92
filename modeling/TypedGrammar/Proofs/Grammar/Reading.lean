import TypedGrammar.Proofs.Derivation.Basic
import TypedGrammar.Diagnostic
import TypedGrammar.Proofs.Grammar.Building
import TypedGrammar.Proofs.Tree.Parts

/-!
# Reading accepted texts

The tree of an accepted text is never nested deeper than rules are, so it is shown and read as a
whole.  If the root of a grammar makes a node, then reading fails only where the maker of some part
of the tree refuses what it is given.
-/

namespace TypedGrammar

open TypedGrammar.Tree

/-! ## Derived trees -/

namespace Language

open Matcher

/-- Every part of the tree that is not trivia stands for a term. -/
inductive Names (language : Language) : Tree → Prop
  | trivia {text} : Names language (.token .trivia text)
  | token {index term text} :
      language.term? index = some term → Names language (.token (.term index) text)
  | node {index term children} :
      language.term? index = some term → (∀ child ∈ children, Names language child) →
      Names language (.node (.term index) children)

variable {language : Language} {room : ℕ} {shapes : List Shape} {start stop : Cursor}
  {trees : List Tree} {text : String} {parse : Parse} {tree : Tree}

theorem Derives.names (h : language.Derives room shapes start trees stop) :
    ∀ tree ∈ trees, language.Names tree :=
  h.each (P := fun _ => language.Names) (fun _ _ h => h) (fun _ _ => .trivia)
    (fun _ _ _ _ _ _ _ hterm _ _ => .token hterm) fun _ _ _ _ _ _ _ hdef _ _ ih =>
      .node hdef.1 ih

/-- Nodes are nested no deeper than rules can be open. -/
theorem Derives.height_le (h : language.Derives room shapes start trees stop) :
    ∀ tree ∈ trees, tree.height ≤ room := by
  refine h.each (P := fun room tree => tree.height ≤ room) (fun _ _ h => h.trans (Nat.le_succ _))
    (fun _ _ => Nat.zero_le _) (fun _ _ _ _ _ _ _ _ _ _ => Nat.zero_le _) ?_
  intro room index term shape start children stop _ _ _ ih
  rw [height]
  exact Nat.succ_le_succ (heightOfAll_le_iff.mpr ih)

/-- Below the document of an accepted text, nodes are nested no deeper than the nesting limit. -/
theorem height_le_of_parse? (h : language.parse? text = some parse)
    (htree : parse.tree = some tree) :
    ∃ children, tree = .node .document children ∧
      ∀ child ∈ children, child.height ≤ nestingLimit := by
  obtain ⟨trees, middle, stop, htrees, _, _, rfl⟩ := derives_of_parse? h htree
  refine ⟨_, rfl, fun child hchild => ?_⟩
  rcases List.mem_append.mp hchild with hchild | hchild
  · exact htrees.height_le child hchild
  · obtain ⟨text, rfl⟩ := mem_skipped hchild
    exact Nat.zero_le _

/-! ## Display -/

mutual

/-- The lines of a tree at a depth, with everything that is inside. -/
def wholeLines (language : Language) (depth : ℕ) : Tree → String
  | .token kind text =>
    if kind = .trivia then ""
    else s!"{indent depth}{Text.quoted (language.nameOf kind)} = {Text.quoted text},\n"
  | .node kind children =>
    if kind = .trivia then ""
    else
      let name := indent depth ++ Text.quoted (language.nameOf kind)
      if !hasShownParts children then name ++ " = \"<empty>\",\n"
      else
        name ++ " = \x7b\n" ++ wholeLinesOfAll language (depth + 1) children
          ++ indent depth ++ "\x7d,\n"

/-- The lines of each tree of a list, with everything that is inside. -/
def wholeLinesOfAll (language : Language) (depth : ℕ) : List Tree → String
  | [] => ""
  | tree :: rest => wholeLines language depth tree ++ wholeLinesOfAll language depth rest

end

theorem treeLinesOfAll_eq_of {depth : ℕ}
    (h : ∀ tree ∈ trees, language.treeLines depth tree = language.wholeLines depth tree) :
    language.treeLinesOfAll depth trees = language.wholeLinesOfAll depth trees := by
  induction trees with
  | nil => rw [treeLinesOfAll, wholeLinesOfAll]
  | cons tree rest ih =>
    rw [treeLinesOfAll, wholeLinesOfAll, h tree List.mem_cons_self,
      ih fun t ht => h t (List.mem_cons_of_mem _ ht)]

/-- Nothing is left out of a tree that is not too high. -/
theorem treeLines_eq_wholeLines {depth : ℕ} (h : depth + tree.height ≤ nestingLimit + 1) :
    language.treeLines depth tree = language.wholeLines depth tree := by
  induction tree generalizing depth with
  | token kind text => rw [treeLines, wholeLines]
  | node kind children ih =>
    rw [height] at h
    have hdepth : ¬ nestingLimit < depth := by omega
    have hchildren : language.treeLinesOfAll (depth + 1) children =
        language.wholeLinesOfAll (depth + 1) children := by
      refine treeLinesOfAll_eq_of fun child hchild => ih child hchild ?_
      have := height_lt_of_mem kind hchild
      rw [height] at this
      omega
    rw [treeLines, wholeLines, hchildren]
    simp only [if_neg hdepth]

/-- The tree of an accepted text is shown as a whole. -/
theorem displayTree_eq_of_parse? (h : language.parse? text = some parse)
    (htree : parse.tree = some tree) :
    language.displayTree tree = language.wholeLines 0 tree := by
  obtain ⟨children, rfl, hheight⟩ := height_le_of_parse? h htree
  refine treeLines_eq_wholeLines ?_
  rw [height]
  have := heightOfAll_le_iff.mpr hheight
  omega

end Language

/-! ## Values -/

namespace Reading

variable {reading : Reading} {tree : Tree} {trees : List Tree} {depth offset : ℕ} {e : Error}

/-- **Rejections.**  The maker of some part of a tree that begins at `offset` refuses what it is
given: the token, or the parts below the node.  A part without a maker is never refused. -/
inductive Rejects (reading : Reading) : ℕ → Tree → Error → Prop
  | token {offset kind text term maker e} :
      reading.term kind = .ok term → reading.maker? kind = some maker →
      maker.make ⟨term, reading.locate offset, some text, []⟩ = .error e →
      Rejects reading offset (.token kind text) e
  | node {offset depth kind children term parts maker e} :
      reading.term kind = .ok term → reading.parts depth offset children = .ok parts →
      reading.maker? kind = some maker →
      maker.make ⟨term, reading.locateTree offset (.node kind children), none, parts⟩ = .error e →
      Rejects reading offset (.node kind children) e
  | inside {offset kind before child behind e} :
      Rejects reading (offset + byteLengthOfAll before) child e →
      Rejects reading offset (.node kind (before ++ child :: behind)) e

theorem Rejects.first {kind : TreeKind} {child : Tree} {behind : List Tree}
    (h : reading.Rejects offset child e) :
    reading.Rejects offset (.node kind (child :: behind)) e := by
  have hinside : reading.Rejects offset (.node kind ([] ++ child :: behind)) e := .inside h
  exact hinside

/-- The term of a kind that is known. -/
theorem term_of_term? {index : TermIndex} {term : Term}
    (h : reading.language.term? index = some term) :
    reading.term (.term index) = .ok term := by
  have hterm : reading.language.termFor? (.term index) = some term := h
  rw [Reading.term, hterm]

/-- The maker of a term is the one at its number, if it has one. -/
theorem maker?_term {index : TermIndex} {maker? : Option Maker}
    (h : reading.makers[index.value]? = some maker?) : reading.maker? (.term index) = maker? := by
  show (reading.makers[index.value]?).join = _
  rw [h]
  rfl

/-- The node of a rule is made from its parts, unless it lies too deep. -/
theorem node_eq {kind : TreeKind} {children : List Tree} {term : Term}
    (hterm : reading.term kind = .ok term) (hnode : term.flags.has .noNode = false)
    (hdepth : depth ≤ nestingLimit) :
    reading.node depth offset (.node kind children) =
      reading.parts (depth + 1) offset children >>= fun parts =>
        reading.ruleNode kind
          ⟨term, reading.locateTree offset (.node kind children), none, parts⟩ >>= fun made =>
            .ok (some made) := by
  have hnot : ¬ nestingLimit < depth := Nat.not_lt.mpr hdepth
  rw [node, hterm]
  simp only [bind, Except.bind, hnode, Bool.false_eq_true, if_false, if_neg hnot]
  rfl

/-- Each part of a tree that is not trivia has a term. -/
theorem term_of_names (h : reading.language.Names tree) (htrivia : tree.isTrivia = false) :
    ∃ term, reading.term tree.kind = .ok term := by
  cases h with
  | trivia => cases htrivia
  | token hterm => exact ⟨_, term_of_term? hterm⟩
  | node hterm _ => exact ⟨_, term_of_term? hterm⟩

/-- A rule without a maker is a sequence, so a refusal comes from a maker. -/
theorem rejects_of_ruleNode {kind : TreeKind} {children : List Tree} {term : Term}
    {parts : List Part} (hterm : reading.term kind = .ok term)
    (hparts : reading.parts depth offset children = .ok parts)
    (h : reading.ruleNode kind
      ⟨term, reading.locateTree offset (.node kind children), none, parts⟩ = .error e) :
    reading.Rejects offset (.node kind children) e := by
  rw [ruleNode] at h
  cases hmaker : reading.maker? kind with
  | none =>
    rw [hmaker] at h
    cases h
  | some maker =>
    rw [hmaker] at h
    exact .node hterm hparts hmaker h

/-- A token is refused by its maker only. -/
theorem rejects_of_tokenNode {kind : TreeKind} {text : String} {term : Term}
    (hterm : reading.term kind = .ok term) (h : reading.tokenNode kind offset text = .error e) :
    reading.Rejects offset (.token kind text) e := by
  unfold tokenNode at h
  rcases bind_eq_error h with hfail | ⟨term', hterm', h⟩
  · rw [hterm] at hfail
    cases hfail
  · obtain rfl := Except.ok.inj (hterm.symm.trans hterm')
    split at h
    · cases h
    · split at h
      · next maker hmaker =>
        rcases bind_eq_error h with hmake | ⟨_, _, hok⟩
        · exact .token hterm hmaker hmake
        · cases hok
      · cases h

/-- If the trees of a list fail only by rejections, then so does the list. -/
theorem rejects_of_parts_of (hnames : ∀ tree ∈ trees, reading.language.Names tree)
    (hnode : ∀ tree ∈ trees, ∀ offset, tree.isTrivia = false →
      reading.node depth offset tree = .error e → reading.Rejects offset tree e)
    (h : reading.parts depth offset trees = .error e) :
    ∃ before child behind, trees = before ++ child :: behind ∧
      reading.Rejects (offset + byteLengthOfAll before) child e := by
  induction trees generalizing offset with
  | nil =>
    rw [parts] at h
    cases h
  | cons tree rest ih =>
    -- What is rejected further on is rejected behind this tree.
    have hrest : reading.parts depth (offset + tree.byteLength) rest = .error e →
        ∃ before child behind, tree :: rest = before ++ child :: behind ∧
          reading.Rejects (offset + byteLengthOfAll before) child e := by
      intro h
      obtain ⟨before, child, behind, rfl, hrejects⟩ :=
        ih (fun t ht => hnames t (List.mem_cons_of_mem _ ht))
          (fun t ht => hnode t (List.mem_cons_of_mem _ ht)) h
      refine ⟨tree :: before, child, behind, rfl, ?_⟩
      rwa [byteLengthOfAll, ← Nat.add_assoc]
    rw [parts] at h
    cases htrivia : tree.isTrivia with
    | true =>
      rw [if_pos htrivia] at h
      exact hrest h
    | false =>
      rw [if_neg (Bool.eq_false_iff.mp htrivia)] at h
      obtain ⟨term, hterm⟩ := term_of_names (hnames tree List.mem_cons_self) htrivia
      rcases bind_eq_error h with hfail | ⟨_, _, h⟩
      · rw [hterm] at hfail
        cases hfail
      · rcases bind_eq_error h with hmade | ⟨made, _, h⟩
        · exact ⟨[], tree, rest, rfl, hnode tree List.mem_cons_self offset htrivia hmade⟩
        · rcases bind_eq_error h with hparts | ⟨_, _, hok⟩
          · exact hrest hparts
          · cases hok

/-- **Failures of reading.**  A tree that is not too high, and all parts of which have terms, is
refused by makers only. -/
theorem rejects_of_node (hnames : reading.language.Names tree) (htrivia : tree.isTrivia = false)
    (hheight : depth + tree.height ≤ nestingLimit + 1)
    (h : reading.node depth offset tree = .error e) : reading.Rejects offset tree e := by
  induction tree generalizing depth offset with
  | token kind text =>
    rw [node] at h
    obtain ⟨term, hterm⟩ := term_of_names hnames htrivia
    exact rejects_of_tokenNode hterm h
  | node kind children ih =>
    obtain ⟨term, hterm⟩ := term_of_names hnames htrivia
    have hchildren : ∀ child ∈ children, reading.language.Names child := by
      cases hnames with
      | node _ hchildren => exact hchildren
    rw [height] at hheight
    rw [node] at h
    rcases bind_eq_error h with hfail | ⟨term', hterm', h⟩
    · rw [Tree.kind] at hterm
      rw [hterm] at hfail
      cases hfail
    · split at h
      · cases h
      · -- There is a node here, so the depth alone cannot exceed the limit.
        have hdepth : ¬ nestingLimit < depth := by omega
        rw [if_neg hdepth] at h
        rcases bind_eq_error h with hparts | ⟨parts, hparts, h⟩
        · obtain ⟨before, child, behind, rfl, hrejects⟩ :=
            rejects_of_parts_of hchildren (fun child hchild offset htrivia h => by
              have hlt := height_lt_of_mem kind hchild
              rw [height] at hlt
              exact ih child hchild (hchildren child hchild) htrivia (by omega) h) hparts
          exact .inside hrejects
        · rcases bind_eq_error h with hmake | ⟨_, _, hok⟩
          · exact rejects_of_ruleNode hterm' hparts hmake
          · cases hok

end Reading

end TypedGrammar
