import TypedGrammar.Proofs.Draft.KeyOrders

/-!
# The order of entries

The entries of constants and operators may stand in another order.  Then the same rules are put
together from terms with other numbers: the node types of a description are defined in step, unless
a declaration is left without its shape.
-/

namespace TypedGrammar

/-- An order for the entries of each declaration.  Where the order is another one, the entries are
known by different names. -/
structure Reordering where
  constants : ConstantDeclaration → List ConstantEntry
  operators : OperatorDeclaration → List OperatorEntry
  constants_perm : ∀ type : ConstantDeclaration, type.constants.Perm (constants type)
  operators_perm : ∀ type : OperatorDeclaration, type.operators.Perm (operators type)
  constants_names : ∀ type, constants type ≠ type.constants →
    (type.constants.map (·.name)).Nodup
  operators_names : ∀ type, operators type ≠ type.operators →
    (type.operators.map (·.name)).Nodup

/-- The constants in the other order. -/
def ConstantDeclaration.reordered (type : ConstantDeclaration) (order : Reordering) :
    ConstantDeclaration :=
  { type with constants := order.constants type }

/-- The operators in the other order. -/
def OperatorDeclaration.reordered (type : OperatorDeclaration) (order : Reordering) :
    OperatorDeclaration :=
  { type with operators := order.operators type }

namespace Rule

/-! ## Rules -/

mutual

/-- The rule with the entries of declarations in the other order. -/
def reordered (order : Reordering) : Rule → Rule
  | constant type => constant (type.reordered order)
  | operator type => operator (type.reordered order)
  | braces opening inside closing omissible =>
    braces opening (reordered order inside) closing omissible
  | optional inner => optional (reordered order inner)
  | withoutNode inner => withoutNode (reordered order inner)
  | list element item bounds => list element (reordered order item) bounds
  | listOf element item delimiter bounds =>
    listOf element (reordered order item) (reordered order delimiter) bounds
  | custom name inner maker => custom name (reordered order inner) maker
  | all items => all (reorderedAll order items)
  | followedBy first second => followedBy (reordered order first) (reordered order second)
  | firstOf items => firstOf (reorderedAll order items)
  | star item => star (reordered order item)
  | plus item => plus (reordered order item)
  | orEmpty inner => orEmpty (reordered order inner)
  | sequence items => sequence (reorderedAll order items)
  | choice items => choice (reorderedAll order items)
  | repeated item bounds => repeated (reordered order item) bounds
  | separated item delimiter bounds =>
    separated (reordered order item) (reordered order delimiter) bounds
  | attempt inner => attempt (reordered order inner)
  | other => other

/-- The rules of a list with the entries of declarations in the other order. -/
def reorderedAll (order : Reordering) : List Rule → List Rule
  | [] => []
  | rule :: rest => reordered order rule :: reorderedAll order rest

end

mutual

/-- The rule does not refer to terms by number: shapes at hand are without terms. -/
def IsSelfContained : Rule → Prop
  | shape s => s.references = []
  | braces _ inside _ _ => inside.IsSelfContained
  | optional inner => inner.IsSelfContained
  | withoutNode inner => inner.IsSelfContained
  | list _ item _ => item.IsSelfContained
  | listOf _ item delimiter _ => item.IsSelfContained ∧ delimiter.IsSelfContained
  | custom _ inner _ => inner.IsSelfContained
  | all items => AllSelfContained items
  | followedBy first second => first.IsSelfContained ∧ second.IsSelfContained
  | firstOf items => AllSelfContained items
  | star item => item.IsSelfContained
  | plus item => item.IsSelfContained
  | orEmpty inner => inner.IsSelfContained
  | sequence items => AllSelfContained items
  | choice items => AllSelfContained items
  | repeated item _ => item.IsSelfContained
  | separated item delimiter _ => item.IsSelfContained ∧ delimiter.IsSelfContained
  | attempt inner => inner.IsSelfContained
  | _ => True

/-- So are all rules of a list. -/
def AllSelfContained : List Rule → Prop
  | [] => True
  | rule :: rest => rule.IsSelfContained ∧ AllSelfContained rest

end

open Drafting Draft

variable {order : Reordering} {define define' : ℕ → Drafting TermIndex}
  {R R' : TermIndex → TermIndex → Prop}

/-! ### Declarations -/

/-- Constants in another order make the requests in that order. -/
theorem reorders_constants (type : ConstantDeclaration) :
    Reorders (TypeDeclaration.constant type).requests
      (TypeDeclaration.constant (type.reordered order)).requests := by
  by_cases hsame : order.constants type = type.constants
  · have htype : type.reordered order = type := by
      unfold ConstantDeclaration.reordered
      rw [hsame]
    exact Or.inl (by rw [htype])
  · refine Or.inr ⟨(order.constants_perm type).map _, ?_⟩
    have hnames := order.constants_names type hsame
    simpa [TypeDeclaration.requests, Function.comp_def] using hnames

/-- Operators in another order make the requests in that order. -/
theorem reorders_operators (type : OperatorDeclaration) :
    Reorders (TypeDeclaration.operator type).requests
      (TypeDeclaration.operator (type.reordered order)).requests := by
  by_cases hsame : order.operators type = type.operators
  · have htype : type.reordered order = type := by
      unfold OperatorDeclaration.reordered
      rw [hsame]
    exact Or.inl (by rw [htype])
  · refine Or.inr ⟨(order.operators_perm type).map _, ?_⟩
    have hnames := order.operators_names type hsame
    simpa [TypeDeclaration.requests, Function.comp_def] using hnames

/-- Constants in another order are registered in step. -/
theorem inStep_constant (type : ConstantDeclaration) :
    InStep IsBroken R (fun R => R) (Drafting.constant type)
      (Drafting.constant (type.reordered order)) := by
  rw [constant_eq, constant_eq]
  refine inStep_choice (reorders_constants type) rfl rfl rfl ?_
  rintro ⟨_, _, hmaker⟩
  cases hmaker

/-- Operators in another order are registered in step. -/
theorem inStep_operator (type : OperatorDeclaration) :
    InStep IsBroken R (fun R => R) (Drafting.operator type)
      (Drafting.operator (type.reordered order)) := by
  rw [operator_eq, operator_eq]
  refine inStep_choice (reorders_operators type) rfl rfl rfl ?_
  rintro ⟨_, _, hmaker⟩
  cases hmaker

/-! ### Evaluation -/

/-- Node types are defined in step, and leave broken drafts broken. -/
structure NodesInStep (R : TermIndex → TermIndex → Prop) (define define' : ℕ → Drafting TermIndex) :
    Prop where
  inStep : ∀ number, InStep IsBroken R (fun R => R) (define number) (define' number)
  respects : ∀ number, (define number).Respects ∅

theorem NodesInStep.mono (h : NodesInStep R define define') (hR : R ≤ R') :
    NodesInStep R' define define' :=
  ⟨fun number => (h.inStep number).mono hR, h.respects⟩

/-- Evaluating a rule mends nothing. -/
theorem eval_staysBroken (hdefine : ∀ number, (define number).Respects ∅) (rule : Rule) :
    (rule.eval define).Follows StaysBroken :=
  (respects_eval hdefine rule fun _ _ _ hother => hother.elim).staysBroken

theorem evalAll_staysBroken (hdefine : ∀ number, (define number).Respects ∅) (rules : List Rule) :
    (evalAll define rules).Follows StaysBroken :=
  follows_evalAll (P := fun _ => True) (fun call _ =>
    (respects_call call fun _ _ _ hother => hother.elim).staysBroken)
    (fun number => (hdefine number).staysBroken) rules fun _ _ => trivial

/-- A single term is the result on either side. -/
theorem inStep_term {p q : Drafting TermIndex} (h : InStep IsBroken R (fun R => R) p q) :
    InStep IsBroken R Shape.Renames (.term <$> p) (.term <$> q) :=
  h.map fun _ _ _ _ => Shape.renames_term

/-- A call is made with the result of a rule. -/
theorem inStep_call {p q : Drafting Shape} {f g : Shape → Drafting Shape}
    (h : InStep IsBroken R Shape.Renames p q) (hf : ∀ s, (f s).Respects ∅)
    (hcall : ∀ R' s t, R ≤ R' → s.Renames R' t → InStep Never R' Shape.Renames (f s) (g t)) :
    InStep IsBroken R Shape.Renames (p >>= f) (q >>= g) :=
  h.bind (fun s => (hf s).staysBroken) fun R' hR s t hst => (hcall R' s t hR hst).weaken

/-- A shape is put together from the results of rules. -/
theorem inStep_shape {α : Type} {V : (TermIndex → TermIndex → Prop) → α → α → Prop}
    {p q : Drafting α} {f : α → Shape} (h : InStep IsBroken R V p q)
    (hshape : ∀ R' x y, V R' x y → (f x).Renames R' (f y)) :
    InStep IsBroken R Shape.Renames (p >>= fun x => pure (f x)) (q >>= fun y => pure (f y)) :=
  h.bind (fun _ => follows_pure _) fun R' _ x y hxy =>
    inStep_pure fun _ hR => (hshape R' x y hxy).mono hR

mutual

/-- **Evaluation in another order.**  A rule is evaluated in step with the rule in which entries
stand in another order. -/
theorem inStep_eval (order : Reordering) (hnodes : NodesInStep R define define') :
    ∀ rule : Rule, rule.IsSelfContained →
      InStep IsBroken R Shape.Renames (rule.eval define) ((rule.reordered order).eval define')
  | shape s, h => inStep_pure fun _ _ => Shape.renames_self h
  | hint h, _ => inStep_pure fun _ _ => Shape.renames_self rfl
  | node number, _ => inStep_term (hnodes.inStep number)
  | identifier type, _ => inStep_term (inStep_identifier type)
  | literal type, _ => inStep_term (inStep_literal type)
  | constant type, _ => inStep_term (inStep_constant type)
  | operator type, _ => inStep_term (inStep_operator type)
  | key request, _ => inStep_term (inStep_key request)
  | braces opening inside closing omissible, h =>
    inStep_call (inStep_eval order hnodes inside h)
      (fun s => respects_braces opening s closing omissible) fun _ _ _ _ hst =>
        inStep_braces opening closing omissible hst
  | optional inner, h =>
    inStep_call (inStep_eval order hnodes inner h) (fun s => respects_optional s)
      fun _ _ _ _ hst => inStep_optional hst
  | withoutNode inner, h =>
    inStep_call (inStep_eval order hnodes inner h) (fun s => respects_withoutNode s)
      fun _ s t _ _ => inStep_withoutNode s t
  | list element item bounds, h =>
    inStep_call (inStep_eval order hnodes item h) (fun s => respects_list element s none bounds)
      fun _ _ _ _ hst => inStep_list element bounds hst .none
  | listOf element item delimiter bounds, ⟨hitem, hdelimiter⟩ => by
    refine (inStep_eval order hnodes item hitem).bind (fun s =>
      follows_bind (eval_staysBroken hnodes.respects delimiter) fun d =>
        (respects_list element s (some d) bounds).staysBroken) fun R₁ hR₁ s t hst => ?_
    -- The terms that the item relates stay related while the delimiter is evaluated.
    refine inStep_call ((inStep_eval order hnodes delimiter hdelimiter).mono hR₁)
      (fun d => respects_list element s (some d) bounds) fun R₂ d e hR₂ hde => ?_
    exact inStep_list element bounds (hst.mono hR₂) (.some hde)
  | custom name inner maker, h =>
    inStep_call (inStep_eval order hnodes inner h) (fun s => respects_custom name s maker)
      fun _ s t _ _ => inStep_custom name maker s t
  | all items, h =>
    inStep_shape (inStep_evalAll order hnodes items h) fun _ _ _ hall =>
      Shape.renames_foldl (fun _ _ _ _ hfirst hsecond => hfirst.append hsecond)
        (Shape.renames_self rfl) hall
  | followedBy first second, ⟨hfirst, hsecond⟩ => by
    refine (inStep_eval order hnodes first hfirst).bind (fun _ =>
      follows_bind (eval_staysBroken hnodes.respects second) fun _ => follows_pure _)
      fun R₁ hR₁ s t hst => ?_
    refine ((inStep_eval order hnodes second hsecond).mono hR₁).bind (fun _ => follows_pure _)
      fun R₂ hR₂ s' t' hst' => inStep_pure fun R₃ hR₃ => ?_
    exact (hst.mono (le_trans hR₂ hR₃)).append (hst'.mono hR₃)
  | firstOf items, h => by
    refine (inStep_evalAll order hnodes items h).bind (fun shapes => ?_) fun R₁ _ ss ts hall => ?_
    · cases shapes <;> exact follows_pure _
    · cases hall with
      | nil => exact inStep_pure fun _ _ => Shape.renames_self rfl
      | cons hfirst hrest =>
        refine inStep_pure fun R₂ hR₂ => Shape.Renames.mono ?_ hR₂
        exact Shape.renames_foldl (fun _ _ _ _ ha hb => ha.or hb) hfirst hrest
  | star item, h | plus item, h | repeated item _, h =>
    inStep_shape (inStep_eval order hnodes item h) fun _ _ _ hst => hst.repeated
  | orEmpty inner, h => inStep_shape (inStep_eval order hnodes inner h) fun _ _ _ hst => hst.orEmpty
  | sequence items, h =>
    inStep_shape (inStep_evalAll order hnodes items h) fun _ _ _ hall => Shape.renames_sequence hall
  | choice items, h =>
    inStep_shape (inStep_evalAll order hnodes items h) fun _ _ _ hall => Shape.renames_choice hall
  | separated item delimiter bounds, ⟨hitem, hdelimiter⟩ => by
    refine (inStep_eval order hnodes item hitem).bind (fun _ =>
      follows_bind (eval_staysBroken hnodes.respects delimiter) fun _ => follows_pure _)
      fun R₁ hR₁ s t hst => ?_
    refine ((inStep_eval order hnodes delimiter hdelimiter).mono hR₁).bind (fun _ => follows_pure _)
      fun R₂ hR₂ s' t' hst' => inStep_pure fun R₃ hR₃ => ?_
    exact (hst.mono (le_trans hR₂ hR₃)).separated (hst'.mono hR₃)
  | fail _ _, _ => inStep_throw _ _
  | attempt inner, h =>
    (inStep_eval order hnodes inner h).recover (fun _ => follows_pure _) fun _ _ =>
      inStep_pure fun _ _ => Shape.renames_self rfl

/-- The rules of a list are evaluated in step with themselves in another order. -/
theorem inStep_evalAll (order : Reordering) (hnodes : NodesInStep R define define') :
    ∀ rules : List Rule, AllSelfContained rules →
      InStep IsBroken R (fun R => List.Forall₂ (Shape.Renames R)) (evalAll define rules)
        (evalAll define' (reorderedAll order rules))
  | [], _ => inStep_pure fun _ _ => .nil
  | rule :: rest, ⟨hrule, hrest⟩ => by
    refine (inStep_eval order hnodes rule hrule).bind (fun _ =>
      follows_bind (evalAll_staysBroken hnodes.respects rest) fun _ => follows_pure _)
      fun R₁ hR₁ s t hst => ?_
    refine ((inStep_evalAll order hnodes rest hrest).mono hR₁).bind (fun _ => follows_pure _)
      fun R₂ hR₂ ss ts hall => inStep_pure fun R₃ hR₃ => ?_
    exact .cons (hst.mono (le_trans hR₂ hR₃)) (hall.imp fun _ _ h => h.mono hR₃)

end

end Rule

/-! ## Node types -/

/-- What is done afterwards, with the entries of declarations in the other order. -/
def Afterthought.reordered (order : Reordering) : Afterthought → Afterthought
  | setFlags flags on => setFlags flags on
  | evaluate rule => evaluate (rule.reordered order)

/-- What is done afterwards does not refer to terms by number. -/
def Afterthought.IsSelfContained : Afterthought → Prop
  | setFlags _ _ => True
  | evaluate rule => rule.IsSelfContained

/-- The node type with the entries of declarations in the other order. -/
def NodeDeclaration.reordered (order : Reordering) (type : NodeDeclaration) : NodeDeclaration :=
  { type with
    rule := type.rule.reordered order
    afterthoughts := type.afterthoughts.map (·.reordered order) }

/-- The node type does not refer to terms by number. -/
structure NodeDeclaration.IsSelfContained (type : NodeDeclaration) : Prop where
  rule : type.rule.IsSelfContained
  afterthoughts : ∀ thought ∈ type.afterthoughts, thought.IsSelfContained

namespace Drafting

open Draft Rule

variable {order : Reordering} {define define' : ℕ → Drafting TermIndex}
  {R : TermIndex → TermIndex → Prop} {a b : Draft} {i j : TermIndex} {entry : Entry}
  {types : Array NodeDeclaration}

/-- An afterthought mends nothing. -/
theorem afterthought_staysBroken (hdefine : ∀ number, (define number).Respects ∅)
    (index : TermIndex) (thought : Afterthought) :
    (thought.run define index).Follows StaysBroken := by
  cases thought with
  | setFlags flags on => exact staysBroken_setFlags index flags on
  | evaluate rule => exact follows_map (eval_staysBroken hdefine rule)

/-- An afterthought is run in step with itself in another order. -/
theorem inStep_afterthought (order : Reordering) (hnodes : NodesInStep R define define')
    {thought : Afterthought}
    (hself : thought.IsSelfContained) (hij : R i j) :
    InStep IsBroken R (fun _ _ _ => True) (thought.run define i)
      ((thought.reordered order).run define' j) := by
  cases thought with
  | setFlags flags on =>
    intro R' hR a b h
    obtain ⟨hi, hj⟩ := h.bounded i j (hR _ _ hij)
    have hterm : (a.term? i).isNone = false := by
      rw [Draft.term?, Draft.entry?, Array.getElem?_eq_getElem hi]
      rfl
    have hterm' : (b.term? j).isNone = false := by
      rw [Draft.term?, Draft.entry?, Array.getElem?_eq_getElem hj]
      rfl
    show RunsInStep _ _ _ ((setFlags i flags on).runOn a) ((setFlags j flags on).runOn b)
    rw [runOn_setFlags, runOn_setFlags, hterm, hterm']
    exact .ok R' (le_refl R') (h.withFlags (hR _ _ hij) fun old => old.assign flags on) trivial
  | evaluate rule => exact (inStep_eval order hnodes rule hself).map fun _ _ _ _ _ => trivial

/-- Afterthoughts are run in step, one after the other. -/
theorem inStep_afterthoughts (order : Reordering) (hnodes : NodesInStep R define define')
    {thoughts : List Afterthought}
    (hself : ∀ thought ∈ thoughts, thought.IsSelfContained) (hij : R i j) :
    InStep IsBroken R (fun _ _ _ => True) (thoughts.forM (·.run define i))
      ((thoughts.map (·.reordered order)).forM (·.run define' j)) := by
  induction thoughts generalizing R with
  | nil => exact inStep_pure fun _ _ => trivial
  | cons thought rest ih =>
    rw [List.forall_mem_cons] at hself
    show InStep IsBroken R _ (thought.run define i >>= fun _ => rest.forM (·.run define i))
      ((thought.reordered order).run define' j >>= fun _ =>
        (rest.map (·.reordered order)).forM (·.run define' j))
    refine (inStep_afterthought order hnodes hself.1 hij).bind (fun _ =>
      follows_forM (afterthought_staysBroken hnodes.respects i) rest) fun R' hR _ _ _ => ?_
    exact ih (hnodes.mono hR) hself.2 (hR _ _ hij)

/-- A node type is filled in, in step with the node type in the other order. -/
theorem runsInStep_fillNode (hnodes : NodesInStep R define define') {type : NodeDeclaration}
    (hself : type.IsSelfContained) (h : Draft.Renames R a b) (hij : R i j)
    (hentry : a.entries[i.value]? = some type.pending) :
    RunsInStep IsBroken R (fun R => R) ((fillNode define type i).runOn a)
      ((fillNode define' (type.reordered order) j).runOn b) := by
  have heval := inStep_eval order hnodes type.rule hself.rule R (le_refl R) a b h
  refine heval.bind (fun _ => id) (fun s a' hrun hbroken => ?_) fun R₁ hR₁ s t a₁ b₁ _ h₁ _ => ?_
  · -- The rule that gets its shape is that of a node type, so it is not the one that lacks it.
    have hleads := respects_eval hnodes.respects type.rule (fun _ _ _ hother => hother.elim) a
    rw [hrun] at hleads
    obtain ⟨entry, hentry', hnode⟩ := isNodeType_of_leads hleads ⟨_, hentry, _, _, rfl⟩
    have hrest : (do
        type.afterthoughts.forM (·.run define i)
        return i : Drafting TermIndex).Follows StaysBroken :=
      follows_bind (follows_forM (afterthought_staysBroken hnodes.respects i) type.afterthoughts)
        fun _ => follows_pure i
    rw [runOn_bind, runOn_setShape]
    exact hrest _ (staysBroken_withShape hentry' hnode s hbroken)
  · have hij₁ := hR₁ _ _ hij
    rw [runOn_bind, runOn_bind, runOn_setShape, runOn_setShape]
    have hthoughts := inStep_afterthoughts order (hnodes.mono hR₁) hself.afterthoughts hij₁
    have hlast := hthoughts.bind (W := fun R => R) (f := fun _ => pure i) (g := fun _ => pure j)
      (fun _ => follows_pure i) fun R₂ hR₂ _ _ _ => inStep_pure fun R₃ hR₃ => hR₃ _ _ (hR₂ _ _ hij₁)
    exact hlast R₁ (le_refl R₁) _ _ (h₁.withShape hij₁ s t)

/-- **Definitions in another order.**  Node types are defined in step with those in which entries
stand in another order. -/
theorem inStep_defineNodeWithin (order : Reordering)
    (hself : ∀ type ∈ types, type.IsSelfContained) (depth number : ℕ) :
    InStep IsBroken R (fun R => R) (defineNodeWithin types depth number)
      (defineNodeWithin (types.map (·.reordered order)) depth number) := by
  induction depth generalizing R number with
  | zero => exact inStep_throw _ _
  | succ depth ih =>
    have hrespects : ∀ number, (defineNodeWithin types depth number).Respects ∅ :=
      respects_defineNodeWithin (fun _ _ _ _ _ hother => hother.elim) depth
    rw [defineNodeWithin, defineNodeWithin, Array.getElem?_map]
    cases htype : types[number]? with
    | none => exact inStep_throw _ _
    | some type =>
      have hmem : type ∈ types := Array.mem_of_getElem? htype
      refine inStep_declaredOr fun R₁ _ a b h => ?_
      refine (inStep_declare _ _ R₁ (le_refl R₁) a b h).then fun R₂ _ i j a' b' hrun h' hij => ?_
      exact runsInStep_fillNode ⟨fun number => ih number, hrespects⟩ (hself type hmem) h' hij
        (entry_of_declare hrun)

end Drafting

end TypedGrammar
