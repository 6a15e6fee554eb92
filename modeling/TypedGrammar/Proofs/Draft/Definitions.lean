import TypedGrammar.Proofs.Draft.Steps

/-!
# Definitions of node types

The evaluation of rules and the definition of node types are made of sound steps.  So in the draft
of a description that is complete, each declaration stands in its entry, and the root has the shape
that its rule was evaluated to.
-/

namespace TypedGrammar

/-! ## Rules -/

namespace Rule

variable {types : Set TypeDeclaration} {define : ℕ → Drafting TermIndex}

open Drafting

/-- A rule is evaluated by sound steps, if node types are defined by sound steps and all
declarations are told apart. -/
theorem respects_eval (hdefine : ∀ number, (define number).Respects types) (rule : Rule)
    (h : ∀ d ∈ rule.declarations, Draft.Tells types d) : (rule.eval define).Respects types :=
  follows_eval respects_call hdefine rule h

end Rule

/-! ## Node types -/

/-- The declarations that the rule of an afterthought names. -/
def Afterthought.declarations : Afterthought → List TypeDeclaration
  | setFlags _ _ => []
  | evaluate rule => rule.declarations

/-- A node type, and the declarations that it names. -/
def NodeDeclaration.declarations (type : NodeDeclaration) : List TypeDeclaration :=
  .node type :: (type.rule.declarations ++ type.afterthoughts.flatMap Afterthought.declarations)

/-- What holds of these declarations holds of the node type, and of what its rule and each of its
afterthoughts name. -/
theorem NodeDeclaration.forall_declarations {P : TypeDeclaration → Prop} {type : NodeDeclaration}
    (h : ∀ d ∈ type.declarations, P d) :
    P (.node type) ∧ (∀ d ∈ type.rule.declarations, P d) ∧
      ∀ thought ∈ type.afterthoughts, ∀ d ∈ thought.declarations, P d := by
  rw [declarations, List.forall_mem_cons, List.forall_mem_append] at h
  obtain ⟨hself, hrule, hthoughts⟩ := h
  refine ⟨hself, hrule, fun thought hthought d hd => hthoughts d ?_⟩
  exact List.mem_flatMap.mpr ⟨thought, hthought, hd⟩

namespace Drafting

variable {told : Set TypeDeclaration} {define : ℕ → Drafting TermIndex}
  {types : Array NodeDeclaration}
  {type : NodeDeclaration} {draft base after : Draft} {index found : TermIndex} {number depth : ℕ}

/-- An entry that belongs to a node type still does in a later draft. -/
theorem isNodeType_of_leads (hleads : base.Leads told draft)
    (h : ∃ entry, base.entries[index.value]? = some entry ∧ entry.IsNodeType) :
    ∃ entry, draft.entries[index.value]? = some entry ∧ entry.IsNodeType := by
  obtain ⟨entry, hentry, hnode⟩ := h
  obtain ⟨entry', hentry', hstays⟩ := hleads.extension.entries _ _ hentry
  exact ⟨entry', hentry', hstays.isNodeType hnode⟩

/-- The flags of a node type are not looked at by anything else. -/
theorem leads_setFlags (flags : Flags) (on : Bool)
    (h : ∃ entry, draft.entries[index.value]? = some entry ∧ entry.IsNodeType) :
    draft.Leads told ((setFlags index flags on).runOn draft).2 := by
  obtain ⟨entry, hentry, hnode⟩ := h
  have hext := Draft.extends_modifyFlags hentry hnode fun old => old.assign flags on
  rw [runOn_setFlags]
  split
  · exact .refl draft
  · exact ⟨hext, fun hsound => hsound.of_extends hext rfl fun _ _ hkey => Or.inl hkey⟩

/-- What is done after a shape is stored leads on, for the term of a node type. -/
theorem leads_afterthoughts (hdefine : ∀ number, (define number).Respects told)
    {thoughts : List Afterthought}
    (htold : ∀ thought ∈ thoughts, ∀ d ∈ thought.declarations, Draft.Tells told d)
    (h : ∃ entry, draft.entries[index.value]? = some entry ∧ entry.IsNodeType) :
    draft.Leads told ((thoughts.forM (·.run define index)).runOn draft).2 := by
  induction thoughts generalizing draft with
  | nil => exact .refl draft
  | cons thought rest ih =>
    have hfirst : draft.Leads told ((thought.run define index).runOn draft).2 := by
      cases thought with
      | setFlags flags on => exact leads_setFlags flags on h
      | evaluate rule =>
        have heval := Rule.respects_eval hdefine rule (htold _ List.mem_cons_self)
        exact follows_map heval draft
    show draft.Leads told ((thought.run define index >>= fun _ =>
      rest.forM (·.run define index)).runOn draft).2
    rw [runOn_bind]
    rcases hrun : (thought.run define index).runOn draft with ⟨e | _, middle⟩
    · rw [hrun] at hfirst
      exact hfirst
    · rw [hrun] at hfirst
      exact hfirst.trans (ih (fun thought hthought => htold thought (List.mem_cons_of_mem _ hthought))
        (isNodeType_of_leads hfirst h))

/-- Evaluates the rule of a node type for its shape, and does what is left to do. -/
def fillNode (define : ℕ → Drafting TermIndex) (type : NodeDeclaration) (index : TermIndex) :
    Drafting TermIndex := do
  setShape index (← type.rule.eval define)
  type.afterthoughts.forM (·.run define index)
  return index

/-- When the shape of a node type has been stored, its entry has this shape and still its maker. -/
theorem isNodeType_withShape (shape : Shape)
    (hway : Draft.UnderWay told base index (.node type) draft) :
    ∃ entry, (draft.modifyTerm index (·.withShape shape)).entries[index.value]? = some entry ∧
      ({ type.pending with kind := .rule (some shape) } : Entry).Stays entry ∧
      entry.IsNodeType := by
  obtain ⟨entry, hentry, hstays⟩ := hway.pending
  have hstays' : ({ type.pending with kind := .rule (some shape) } : Entry).Stays
      { entry with kind := .rule (some shape) } := by
    rcases hstays with rfl | ⟨hnode, flags, rfl⟩
    · exact .refl _
    · exact Or.inr ⟨hnode, flags, rfl⟩
  exact ⟨_, Draft.getElem?_withShape hentry, hstays', hstays'.isNodeType ⟨_, _, rfl⟩⟩

/-- To fill in a node type leads on, and a node type that is filled in has its shape. -/
theorem leads_fillNode (hdefine : ∀ number, (define number).Respects told)
    (htold : ∀ d ∈ type.declarations, Draft.Tells told d)
    (hway : Draft.UnderWay told base index (.node type) draft) :
    base.Leads told ((fillNode define type index).runOn draft).2 ∧
      ∀ found after, (fillNode define type index).runOn draft = (.ok found, after) →
        found = index ∧ ∃ shape last, (type.rule.eval define).runOn draft = (.ok shape, last) ∧
          (∀ typeName index, last.declared.lookup typeName = some index →
            after.declared.lookup typeName = some index) ∧
          ∃ entry, after.entries[index.value]? = some entry ∧
            ({ type.pending with kind := .rule (some shape) } : Entry).Stays entry := by
  obtain ⟨hself, hrule, hthoughts⟩ := NodeDeclaration.forall_declarations htold
  have heval := hway.step (Rule.respects_eval hdefine type.rule hrule draft)
  unfold fillNode
  rw [runOn_bind]
  rcases hrun : (type.rule.eval define).runOn draft with ⟨e | shape, last⟩
  · -- The node type remains declared without a shape.
    rw [hrun] at heval
    exact ⟨heval.leads, fun _ _ h => by cases h⟩
  · rw [hrun] at heval
    simp only
    rw [runOn_bind, runOn_setShape]
    simp only
    obtain ⟨entry, hentry, hstays, hnode⟩ := isNodeType_withShape shape heval
    have hshaped : base.Leads told (last.modifyTerm index (·.withShape shape)) :=
      heval.withShape hself rfl trivial
    have hlast := leads_afterthoughts hdefine hthoughts ⟨entry, hentry, hnode⟩
    rw [runOn_bind]
    rcases hfinal : (type.afterthoughts.forM (·.run define index)).runOn
        (last.modifyTerm index (·.withShape shape)) with ⟨e | _, final⟩
    · rw [hfinal] at hlast
      exact ⟨hshaped.trans hlast, fun _ _ h => by cases h⟩
    · rw [hfinal] at hlast
      refine ⟨hshaped.trans hlast, fun found after h => ?_⟩
      obtain ⟨rfl, rfl⟩ := ok_inj h
      obtain ⟨entry', hentry', hstays'⟩ := hlast.extension.entries _ _ hentry
      exact ⟨rfl, shape, last, rfl, fun _ _ hlookup => hlast.extension.declared _ _ hlookup,
        entry', hentry', hstays.trans hstays'⟩

/-- The node types of a family are told apart from all declarations, and so is what they name. -/
def TellsFamily (told : Set TypeDeclaration) (types : Array NodeDeclaration) : Prop :=
  ∀ type ∈ types, ∀ d ∈ type.declarations, Draft.Tells told d

/-- A node type of a family is found, or registered and filled in. -/
theorem declares_node (hdefine : ∀ number, (define number).Respects told)
    (htold : ∀ d ∈ type.declarations, Draft.Tells told d) :
    Declares told (.node type)
      (declaredOr type.typeName (declare type.typeName type.pending >>= fillNode define type)) := by
  obtain ⟨hself, hrule, _⟩ := NodeDeclaration.forall_declarations htold
  refine declares_declaredOr hself fun base index draft hway => ?_
  obtain ⟨hleads, hok⟩ := leads_fillNode hdefine htold hway
  refine ⟨hleads, fun found after h => ?_⟩
  obtain ⟨rfl, shape, last, hrun, hdeclared, _⟩ := hok found after h
  have hlast := hway.step (Rule.respects_eval hdefine type.rule hrule draft)
  rw [hrun] at hlast
  exact hdeclared _ _ hlast.lookup

theorem respects_defineNodeWithin (hfamily : TellsFamily told types) (depth number : ℕ) :
    (defineNodeWithin types depth number).Respects told := by
  induction depth generalizing number with
  | zero => exact follows_throw _
  | succ depth ih =>
    rw [defineNodeWithin]
    split
    · exact follows_throw _
    · next type htype =>
      exact (declares_node ih (hfamily type (Array.mem_of_getElem? htype))).respects

/-- A node type that is defined is known under its name. -/
theorem lookup_of_defineNodeWithin (hfamily : TellsFamily told types)
    (htype : types[number]? = some type)
    (h : (defineNodeWithin types depth number).runOn draft = (.ok index, after)) :
    after.declared.lookup type.typeName = some index := by
  cases depth with
  | zero => cases h
  | succ depth =>
    rw [defineNodeWithin, htype] at h
    have htold := hfamily type (Array.mem_of_getElem? htype)
    exact (declares_node (respects_defineNodeWithin hfamily depth) htold).lookup h

/-- **The root of a draft.**  A description that is complete has a sound draft.  In it the root has
the shape that its rule was evaluated to, and what was declared by then is still known. -/
theorem root_of_defineNode (hfamily : TellsFamily told types) (htype : types[number]? = some type)
    (h : (defineNode types number).runOn .empty = (.ok index, after)) :
    after.Sound told ∧ ∃ middle shape last,
      (type.rule.eval (defineNodeWithin types types.size)).runOn middle = (.ok shape, last) ∧
      (∀ typeName index, last.declared.lookup typeName = some index →
        after.declared.lookup typeName = some index) ∧
      ∃ entry, after.entries[index.value]? = some entry ∧
        ({ type.pending with kind := .rule (some shape) } : Entry).Stays entry := by
  have hsound := (respects_defineNodeWithin hfamily (types.size + 1) number .empty).sound
    (Draft.sound_empty told)
  unfold defineNode at h
  rw [h] at hsound
  refine ⟨hsound, ?_⟩
  rw [defineNodeWithin, htype] at h
  have htold := hfamily type (Array.mem_of_getElem? htype)
  have hdefine := respects_defineNodeWithin hfamily types.size
  -- In the empty draft nothing is declared, so the root is registered and filled in.
  have hfill : (declare type.typeName type.pending >>=
      fillNode (defineNodeWithin types types.size) type).runOn .empty = (.ok index, after) := by
    simp only [runOn_declaredOr, Draft.empty, List.lookup_nil] at h
    exact h
  obtain ⟨first, middle, hdeclare, hfilled⟩ := bind_ok hfill
  rcases declare_cases type.typeName type.pending .empty with
    ⟨e, claims, hcase, _⟩ | ⟨next, claims, hindex, hcase, _, _⟩
  · rw [hcase] at hdeclare
    cases hdeclare
  · rw [hcase] at hdeclare
    obtain ⟨rfl, rfl⟩ := ok_inj hdeclare
    obtain ⟨hself, _, _⟩ := NodeDeclaration.forall_declarations htold
    have hway := Draft.underWay_declare hself rfl hindex claims
    obtain ⟨rfl, shape, last, hrun, hdeclared, hentry⟩ :=
      (leads_fillNode hdefine htold hway).2 _ _ hfilled
    exact ⟨_, shape, last, hrun, hdeclared, hentry⟩

end Drafting

/-! ## Descriptions -/

/-- The node types of a description, and all declarations that they name. -/
def GrammarDescription.declarations (description : GrammarDescription) : List TypeDeclaration :=
  description.types.toList.flatMap NodeDeclaration.declarations

theorem GrammarDescription.mem_declarations (description : GrammarDescription)
    {type : NodeDeclaration} {d : TypeDeclaration} {number : ℕ}
    (htype : description.types[number]? = some type) (hd : d ∈ type.declarations) :
    d ∈ description.declarations :=
  List.mem_flatMap.mpr ⟨type, Array.mem_toList_iff.mpr (Array.mem_of_getElem? htype), hd⟩

/-- Declarations are told apart by their full names. -/
def GrammarDescription.IsCoherent (description : GrammarDescription) : Prop :=
  ∀ a ∈ description.declarations, ∀ b ∈ description.declarations, a.typeName = b.typeName → a = b

theorem GrammarDescription.IsCoherent.tellsFamily {description : GrammarDescription}
    (h : description.IsCoherent) :
    Drafting.TellsFamily {d | d ∈ description.declarations} description.types := by
  intro type htype d hd other hother hname
  refine h other hother d ?_ hname
  exact List.mem_flatMap.mpr ⟨type, Array.mem_toList_iff.mpr htype, hd⟩

end TypedGrammar
