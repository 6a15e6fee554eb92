import TypedGrammar.Proofs.Rule.Hints

/-!
# Node types without hints

Node types whose rules have the same meaning with hints and without are defined in parallel.  Each
is registered under its name before its rule is evaluated, so the terms that stand for it are
related while its rule is evaluated, and get like shapes then.
-/

namespace TypedGrammar

namespace Afterthought

/-- What is done afterwards, with nothing in place of hints. -/
def withoutHints : Afterthought → Afterthought
  | setFlags flags on => setFlags flags on
  | evaluate rule => evaluate rule.withoutHints

/-- No hint makes a difference to what is done afterwards. -/
def IsHintSafe : Afterthought → Prop
  | setFlags _ _ => True
  | evaluate rule => rule.IsHintSafe

end Afterthought

namespace NodeDeclaration

/-- The node type with nothing in place of hints. -/
def withoutHints (type : NodeDeclaration) : NodeDeclaration :=
  { type with
    rule := type.rule.withoutHints
    afterthoughts := type.afterthoughts.map Afterthought.withoutHints }

/-- No hint makes a difference to the node type. -/
structure IsHintSafe (type : NodeDeclaration) : Prop where
  rule : type.rule.IsHintSafe
  afterthoughts : ∀ thought ∈ type.afterthoughts, thought.IsHintSafe

end NodeDeclaration

namespace Draft

variable {old new : Draft} {request : Request} {index : TermIndex} {entry : Entry}
  {typeName : String}

/-- What was known before a run is known after it. -/
theorem RunsTo.known (h : old.RunsTo new) (hold : old.IsConsistent)
    (hknown : old.known? request = some index) : new.known? request = some index := by
  obtain ⟨events, hrun⟩ := h []
  have hstart : Session.IsConsistent ⟨old, []⟩ :=
    ⟨hold, List.nodup_nil, fun _ hmem => absurd hmem List.not_mem_nil,
      fun _ hmem => absurd hmem List.not_mem_nil⟩
  exact (hrun.keeps hstart).2.known _ _ hknown

theorem RunsTo.declared (h : old.RunsTo new) (hold : old.IsConsistent)
    (hlookup : old.declared.lookup typeName = some index) :
    new.declared.lookup typeName = some index := by
  have hknown : old.known? (.declared typeName) = some index := hlookup
  exact h.known hold hknown

/-- A declaration under way still waits for its shape after a run. -/
theorem RunsTo.pending (h : old.RunsTo new) (hold : old.IsConsistent)
    (hknown : old.known? (.declared typeName) = some index)
    (hentry : old.entries[index.value]? = some entry) (hpending : entry.kind = .rule none) :
    ∃ entry', new.entries[index.value]? = some entry' ∧ entry'.kind = .rule none ∧
      entry'.maker = entry.maker := by
  obtain ⟨events, hrun⟩ := h [⟨typeName, index, false⟩]
  have hstart : Session.IsConsistent ⟨old, [⟨typeName, index, false⟩]⟩ := {
    draft := hold
    distinct := List.nodup_cons.mpr ⟨List.not_mem_nil, List.nodup_nil⟩
    known := List.forall_mem_singleton.mpr hknown
    pending := List.forall_mem_singleton.mpr fun _ => ⟨entry, hentry, hpending⟩ }
  obtain ⟨hafter, hkeeps⟩ := hrun.keeps hstart
  obtain ⟨found, hfound, hkind⟩ := hafter.pending _ (List.mem_singleton.mpr rfl) rfl
  obtain ⟨entry', hentry', hmatures⟩ := hkeeps.entries _ _ hentry
  obtain rfl := Option.some.inj (hfound.symm.trans hentry')
  exact ⟨found, hfound, hkind, hmatures.maker⟩

end Draft

namespace Drafting

open Draft

variable {R : TermIndex → TermIndex → Prop} {define define' : ℕ → Drafting TermIndex} {a b : Draft}
  {i j : TermIndex} {typeName : String} {types : Array NodeDeclaration}

/-- Node types are defined in parallel, by runs. -/
structure NodesRunAlike (R : TermIndex → TermIndex → Prop)
    (define define' : ℕ → Drafting TermIndex) : Prop where
  parallel : ∀ number, Parallel R (fun R => R) (define number) (define' number)
  left : ∀ number, (define number).Follows RunsTo
  right : ∀ number, (define' number).Follows RunsTo

theorem NodesRunAlike.mono {R' : TermIndex → TermIndex → Prop}
    (h : NodesRunAlike R define define') (hR : R ≤ R') : NodesRunAlike R' define define' :=
  ⟨fun number => (h.parallel number).mono hR, h.left, h.right⟩

theorem NodesRunAlike.nodesAlike (h : NodesRunAlike R define define') :
    Rule.NodesAlike R define define' :=
  ⟨h.parallel, fun number => (h.left number).imp fun _ _ hruns => hruns.size_le,
    fun number => (h.right number).imp fun _ _ hruns => hruns.size_le⟩

section Sizes

variable (hdefine : ∀ number, (define number).Follows RunsTo)

include hdefine

theorem follows_afterthoughts (index : TermIndex) (thoughts : List Afterthought) :
    (thoughts.forM (·.run define index)).Follows RunsTo :=
  follows_forM (afterthought_runsTo hdefine index) thoughts

theorem storeNode_sizeLe (index : TermIndex) (shape : Shape) (thoughts : List Afterthought) :
    (do
      setShape index shape
      thoughts.forM (·.run define index)
      return index : Drafting TermIndex).Follows SizeLe :=
  follows_bind (fun draft => sizeLe_modifyTerm draft _ _) fun _ =>
    follows_bind ((follows_afterthoughts hdefine index thoughts).imp fun _ _ h => h.size_le)
      fun _ => follows_pure index

theorem fillNode_sizeLe (type : NodeDeclaration) (index : TermIndex) :
    (fillNode define type index).Follows SizeLe :=
  follows_bind ((eval_runsTo hdefine type.rule).imp fun _ _ h => h.size_le) fun shape =>
    storeNode_sizeLe hdefine index shape type.afterthoughts

end Sizes

/-- An afterthought keeps drafts alike. -/
theorem runsAlike_afterthought (hnodes : NodesRunAlike R define define') {thought : Afterthought}
    (hsafe : thought.IsHintSafe) (halike : Draft.Alike R a b)
    (hi : a.declared.lookup typeName = some i) (hj : b.declared.lookup typeName = some j) :
    RunsAlike R (fun _ _ _ => True) ((thought.run define i).runOn a)
      ((thought.withoutHints.run define' j).runOn b) := by
  cases thought with
  | setFlags flags on =>
    obtain ⟨entry, entry', hentry, hentry', _⟩ := halike.entries i j (halike.of_declared hi hj)
    have hterm : (a.term? i).isNone = false := by
      rw [Draft.term?, Draft.entry?, hentry]
      rfl
    have hterm' : (b.term? j).isNone = false := by
      rw [Draft.term?, Draft.entry?, hentry']
      rfl
    show RunsAlike R _ ((setFlags i flags on).runOn a) ((setFlags j flags on).runOn b)
    rw [runOn_setFlags, runOn_setFlags, hterm, hterm']
    exact .ok R (le_refl R) (halike.withFlags hi hj fun old => old.assign flags on) trivial
  | evaluate rule =>
    exact (Rule.parallel_eval hnodes.nodesAlike rule hsafe).map (fun _ _ _ _ _ => trivial) R
      (le_refl R) a b halike

/-- So do afterthoughts one after the other. -/
theorem runsAlike_afterthoughts (hnodes : NodesRunAlike R define define')
    {thoughts : List Afterthought} (hsafe : ∀ thought ∈ thoughts, thought.IsHintSafe)
    (halike : Draft.Alike R a b) (hi : a.declared.lookup typeName = some i)
    (hj : b.declared.lookup typeName = some j) :
    RunsAlike R (fun _ _ _ => True) ((thoughts.forM (·.run define i)).runOn a)
      (((thoughts.map Afterthought.withoutHints).forM (·.run define' j)).runOn b) := by
  induction thoughts generalizing R a b with
  | nil => exact .ok R (le_refl R) halike trivial
  | cons thought rest ih =>
    rw [List.forall_mem_cons] at hsafe
    have hsize := (follows_afterthoughts hnodes.left i rest).imp fun _ _ h => h.size_le
    have hsize' := (follows_afterthoughts hnodes.right j
      (rest.map Afterthought.withoutHints)).imp fun _ _ h => h.size_le
    show RunsAlike R _
      ((thought.run define i >>= fun _ => rest.forM (·.run define i)).runOn a)
      ((thought.withoutHints.run define' j >>= fun _ =>
        (rest.map Afterthought.withoutHints).forM (·.run define' j)).runOn b)
    refine (runsAlike_afterthought hnodes hsafe.1 halike hi hj).bind (fun _ => hsize)
      (fun _ => hsize') fun R' hR _ _ a' b' hrun hrun' halike' _ => ?_
    have hleft := afterthought_runsTo hnodes.left i thought a
    have hright := afterthought_runsTo hnodes.right j thought.withoutHints b
    rw [hrun] at hleft
    rw [hrun'] at hright
    exact ih (hnodes.mono hR) hsafe.2 halike'
      (hleft.declared halike.left.1 hi) (hright.declared halike.right.1 hj)

/-- A node type is filled in alike with hints and without. -/
theorem runsAlike_fillNode (hnodes : NodesRunAlike R define define') {type : NodeDeclaration}
    (hsafe : type.IsHintSafe) (halike : Draft.Alike R a b)
    (hi : a.declared.lookup type.typeName = some i) (hj : b.declared.lookup type.typeName = some j)
    (hentry : a.entries[i.value]? = some type.pending) :
    RunsAlike R (fun R => R) ((fillNode define type i).runOn a)
      ((fillNode define' type.withoutHints j).runOn b) := by
  have heval := Rule.parallel_eval hnodes.nodesAlike type.rule hsafe.rule R (le_refl R) a b halike
  refine heval.bind (fun s => storeNode_sizeLe hnodes.left i s type.afterthoughts)
    (fun t => storeNode_sizeLe hnodes.right j t (type.afterthoughts.map Afterthought.withoutHints))
    fun R₁ hR₁ s t a₁ b₁ hrun hrun' halike₁ hlike => ?_
  -- The rule is stored in the entry that still waits for it.
  have hleft := eval_runsTo hnodes.left type.rule a
  have hright := eval_runsTo hnodes.right type.rule.withoutHints b
  rw [hrun] at hleft
  rw [hrun'] at hright
  have hi₁ := hleft.declared halike.left.1 hi
  have hj₁ := hright.declared halike.right.1 hj
  obtain ⟨entry, hentry₁, hpending, hmaker⟩ := hleft.pending halike.left.1 hi hentry rfl
  have hignores : ∀ m, entry.maker = some m → m.IgnoresNames := fun m hm =>
    Option.some.inj (hmaker.symm.trans hm) ▸ Maker.ignoresNames_declared _ _
  have hstored := halike₁.withShape hi₁ hj₁ hentry₁ hpending hignores hlike.alike
  rw [runOn_bind, runOn_bind, runOn_setShape, runOn_setShape]
  refine RunsAlike.bind
    (runsAlike_afterthoughts (hnodes.mono hR₁) hsafe.afterthoughts hstored hi₁ hj₁)
    (fun _ => follows_pure _) (fun _ => follows_pure _)
    fun R₂ _ _ _ a₂ b₂ hlast hlast' halike₂ _ => ?_
  have hdone := follows_afterthoughts hnodes.left i type.afterthoughts
    (a₁.modifyTerm i (·.withShape s))
  have hdone' := follows_afterthoughts hnodes.right j type.withoutHints.afterthoughts
    (b₁.modifyTerm j (·.withShape t))
  rw [hlast] at hdone
  rw [hlast'] at hdone'
  have hi₂ := hdone.declared hstored.left.1 hi₁
  have hj₂ := hdone'.declared hstored.right.1 hj₁
  exact .ok R₂ (le_refl R₂) halike₂ (halike₂.of_declared hi₂ hj₂)

/-- **Definitions without hints.**  Node types whose hints make no difference are defined in
parallel with and without them. -/
theorem parallel_defineNodeWithin (hsafe : ∀ type ∈ types, type.IsHintSafe) (depth number : ℕ) :
    Parallel R (fun R => R) (defineNodeWithin types depth number)
      (defineNodeWithin (types.map NodeDeclaration.withoutHints) depth number) := by
  induction depth generalizing R number with
  | zero => exact parallel_throw _ _
  | succ depth ih =>
    have hnodes : ∀ R, NodesRunAlike R (defineNodeWithin types depth)
        (defineNodeWithin (types.map NodeDeclaration.withoutHints) depth) := fun R =>
      ⟨fun number => ih number, defineNodeWithin_runsTo _ depth, defineNodeWithin_runsTo _ depth⟩
    rw [defineNodeWithin, defineNodeWithin, Array.getElem?_map]
    cases htype : types[number]? with
    | none => exact parallel_throw _ _
    | some type =>
      have hmem : type ∈ types := Array.mem_of_getElem? htype
      exact parallel_declaredOr type.pending_hasMaker rfl
        (fillNode_sizeLe (hnodes R).left type) (fillNode_sizeLe (hnodes R).right type.withoutHints)
        fun R' a b i j _ halike hi hj hentry =>
          runsAlike_fillNode (hnodes R') (hsafe type hmem) halike hi hj hentry

end Drafting

end TypedGrammar
