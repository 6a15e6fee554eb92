import TypedGrammar.Proofs.Draft.Calls

/-!
# Sound steps

Every step of drafting leads from one draft to another, whether it fails or not.  A step that
registers a declaration also ends with the term under which the declaration is known.
-/

namespace TypedGrammar

namespace Drafting

variable {α β : Type} {types : Set TypeDeclaration} {type : TypeDeclaration} {p : Drafting α}
  {draft after : Draft}

instance : Std.Refl (Draft.Leads types) :=
  ⟨Draft.Leads.refl⟩

instance : IsTrans Draft (Draft.Leads types) :=
  ⟨fun _ _ _ => Draft.Leads.trans⟩

/-- Whatever becomes of the step, the draft before it leads to the draft after it. -/
abbrev Respects (types : Set TypeDeclaration) (p : Drafting α) : Prop :=
  p.Follows (Draft.Leads types)

/-! ## Key terms -/

/-- Requesting a key term respects the node types. -/
theorem respects_key (request : KeyRequest) : (key request).Respects types := by
  intro draft
  rw [runOn_key]
  split
  · exact .refl draft
  · exact .refl draft
  · split
    · next index hindex => exact Draft.leads_pushKey hindex
    · exact .refl draft

/-- A key term that was asked for is registered. -/
theorem registers_of_key {request : KeyRequest} {index : TermIndex}
    (h : (key request).runOn draft = (.ok index, after)) : after.Registers request index := by
  rw [runOn_key] at h
  split at h
  · cases h
  · next found hlookup =>
    obtain ⟨rfl, rfl⟩ := ok_inj h
    obtain ⟨existing, hexisting, hagrees, hterm⟩ := KeyTermTable.lookup_eq_some hlookup
    exact ⟨existing, hexisting, KeyRequest.serves_of_agrees hagrees, hterm⟩
  · next hlookup =>
    split at h
    · next found hindex =>
      obtain ⟨rfl, rfl⟩ := ok_inj h
      refine ⟨{ request with term := found }, ?_, .refl request, rfl⟩
      show (draft.keyTerms.push { request with term := found }).get? request.name = _
      rw [KeyTermTable.get?_push, KeyTermTable.lookup_eq_none hlookup, Option.none_or, if_pos rfl]
    · cases h

/-- All key terms that were asked for are registered. -/
theorem registers_of_mapM_key {requests : List KeyRequest} {keys : List TermIndex}
    (h : (requests.mapM key).runOn draft = (.ok keys, after)) :
    List.Forall₂ after.Registers requests keys := by
  induction requests generalizing draft keys with
  | nil =>
    rw [List.mapM_nil] at h
    obtain ⟨rfl, rfl⟩ := ok_inj h
    exact .nil
  | cons request rest ih =>
    rw [List.mapM_cons] at h
    obtain ⟨index, middle, hkey, h⟩ := bind_ok h
    obtain ⟨more, last, hrest, h⟩ := bind_ok h
    obtain ⟨rfl, rfl⟩ := ok_inj h
    -- Further key terms do not take away the first one.
    have hmore : (rest.mapM key).Respects ∅ := follows_mapM respects_key rest
    have hext := (hmore middle).extension
    rw [hrest] at hext
    exact .cons ((registers_of_key hkey).mono hext) (ih hrest)

/-! ## Composites -/

/-- Requesting a key term by its text respects the node types. -/
theorem respects_textKey (text : String) (flags : Flags) : (textKey text flags).Respects types :=
  respects_key _

/-- Adding a rule respects the node types. -/
theorem respects_defineRule (name : String) (flags : Flags) (maker : Option Maker) (shape : Shape) :
    (defineRule name flags maker shape).Respects types := by
  intro draft
  rw [runOn_defineRule]
  split
  · exact Draft.leads_pushEntry
  · exact .refl draft

/-- A rule may be noted in a table when it is made. -/
theorem respects_notedRule {name : String} {flags : Flags} {maker : Option Maker} {shape : Shape}
    {note : TermIndex → Draft → Draft}
    (hnote : ∀ index (draft : Draft), draft.Leads types (note index draft)) :
    (do
      let index ← defineRule name flags maker shape
      modify (note index)
      return .term index : Drafting Shape).Respects types :=
  follows_bind (respects_defineRule name flags maker shape) fun index =>
    follows_bind (hnote index) fun _ => follows_pure (Shape.term index)

/-- Grouping a shape respects the node types. -/
theorem respects_group (shape : Shape) : (group shape).Respects types := by
  unfold group
  split
  · exact follows_pure shape
  · refine follows_bind follows_get fun found => ?_
    split
    · exact follows_pure _
    · refine follows_bind follows_get fun labels => ?_
      exact respects_notedRule fun _ _ => Draft.leads_of_eq rfl rfl rfl

/-- Registering braces respects the node types. -/
theorem respects_braces (opening : String) (inside : Shape) (closing : String) (omissible : Bool) :
    (braces opening inside closing omissible).Respects types := by
  unfold braces
  refine follows_bind follows_get fun found => ?_
  split
  · exact follows_pure _
  · refine follows_bind (respects_textKey _ _) fun openIndex => ?_
    refine follows_bind (respects_textKey _ _) fun closeIndex => ?_
    refine follows_bind (respects_group _) fun grouped => ?_
    refine follows_bind follows_get fun labels => ?_
    exact respects_notedRule fun _ _ => Draft.leads_of_eq rfl rfl rfl

/-- Registering an optional part respects the node types. -/
theorem respects_optional (shape : Shape) : (optional shape).Respects types := by
  unfold optional
  refine follows_bind follows_get fun found => ?_
  split
  · exact follows_pure _
  · refine follows_bind follows_get fun labels => ?_
    exact respects_notedRule fun _ _ => Draft.leads_of_eq rfl rfl rfl

/-- Registering a list respects the node types. -/
theorem respects_list (element : ValueType) (shape : Shape) (delimiter : Option Shape)
    (bounds : Bounds) : (list element shape delimiter bounds).Respects types := by
  unfold list
  refine follows_bind follows_get fun found => ?_
  split
  · exact follows_pure _
  · refine follows_bind (respects_group _) fun item => ?_
    refine follows_bind follows_get fun labels => ?_
    exact respects_notedRule fun _ _ => Draft.leads_of_eq rfl rfl rfl

theorem respects_withoutNode (shape : Shape) : (withoutNode shape).Respects types :=
  follows_bind follows_get fun _ => follows_bind (respects_defineRule _ _ _ _) fun _ =>
    follows_pure _

theorem respects_custom (name : String) (shape : Shape) (maker : Maker) :
    (custom name shape maker).Respects types :=
  follows_bind (respects_defineRule _ _ _ _) fun _ => follows_pure _

/-! ## Declarations -/

/-- The step registers a declaration: it ends with the term under which that is known. -/
structure Declares (types : Set TypeDeclaration) (type : TypeDeclaration) (p : Drafting TermIndex) :
    Prop where
  respects : p.Respects types
  lookup : ∀ {draft index after}, p.runOn draft = (.ok index, after) →
    after.declared.lookup type.typeName = some index

/-- A declaration is found, or registered and then completed. -/
theorem declares_declaredOr (htold : Draft.Tells types type) {fill : TermIndex → Drafting TermIndex}
    (hfill : ∀ base index draft, Draft.UnderWay types base index type draft →
      base.Leads types ((fill index).runOn draft).2 ∧
        ∀ found after, (fill index).runOn draft = (.ok found, after) →
          after.declared.lookup type.typeName = some found) :
    Declares types type
      (declaredOr type.typeName (declare type.typeName type.entry >>= fill)) := by
  constructor
  · intro draft
    rw [runOn_declaredOr]
    split
    · exact .refl draft
    · next hnew =>
      rw [runOn_bind]
      rcases declare_cases type.typeName type.entry draft with
        ⟨e, claims, hdeclare, _⟩ | ⟨index, claims, hindex, hdeclare, _, _⟩
      · -- A refused declaration may still have claimed its name.
        rw [hdeclare]
        exact Draft.leads_of_eq rfl rfl rfl
      · rw [hdeclare]
        exact (hfill _ _ _ (Draft.underWay_declare htold hnew hindex claims)).1
  · intro draft found after h
    rw [runOn_declaredOr] at h
    split at h
    · next index hlookup =>
      obtain ⟨rfl, rfl⟩ := ok_inj h
      exact hlookup
    · next hnew =>
      rw [runOn_bind] at h
      rcases declare_cases type.typeName type.entry draft with
        ⟨e, claims, hdeclare, _⟩ | ⟨index, claims, hindex, hdeclare, _, _⟩
      · rw [hdeclare] at h
        cases h
      · rw [hdeclare] at h
        exact (hfill _ _ _ (Draft.underWay_declare htold hnew hindex claims)).2 _ _ h

/-- A declaration without a rule is complete at once. -/
theorem declares_declare (htold : Draft.Tells types type) :
    Declares types type (declaredOr type.typeName (declare type.typeName type.entry)) := by
  have hpure : declare type.typeName type.entry = declare type.typeName type.entry >>= pure :=
    (bind_pure _).symm
  rw [hpure]
  refine declares_declaredOr htold fun base index draft hway => ⟨hway.leads, ?_⟩
  intro found after h
  rw [runOn_pure] at h
  obtain ⟨rfl, rfl⟩ := ok_inj h
  exact hway.lookup

/-- Registers the key terms of a declaration and makes their choice its rule. -/
def fillChoice (type : TypeDeclaration) (index : TermIndex) : Drafting TermIndex := do
  let keys ← type.requests.mapM key
  setShape index (choiceOf keys)
  return index

/-- Declaring a choice between key terms leaves it with a shape that fits. -/
theorem declares_choice (htold : Draft.Tells types type) (hrule : type.entry.kind = .rule none)
    (hfits : ∀ (draft : Draft) keys, List.Forall₂ draft.Registers type.requests keys →
      draft.Fits (choiceOf keys) type) :
    Declares types type
      (declaredOr type.typeName (declare type.typeName type.entry >>= fillChoice type)) := by
  refine declares_declaredOr htold fun base index draft hway => ?_
  have hkeys := hway.step (follows_mapM respects_key type.requests draft)
  unfold fillChoice
  rw [runOn_bind]
  rcases hrun : (type.requests.mapM key).runOn draft with ⟨e | keys, middle⟩
  · rw [hrun] at hkeys
    exact ⟨hkeys.leads, fun _ _ h => by cases h⟩
  · rw [hrun] at hkeys
    simp only
    rw [runOn_bind, runOn_setShape]
    simp only [runOn_pure]
    refine ⟨hkeys.withShape htold hrule (hfits _ _ (registers_of_mapM_key hrun)), ?_⟩
    intro found after h
    obtain ⟨rfl, rfl⟩ := ok_inj h
    exact hkeys.lookup

theorem declares_identifier {t : IdentifierDeclaration}
    (htold : Draft.Tells types (.identifier t)) :
    Declares types (.identifier t) (identifier t) :=
  declares_declare htold

theorem declares_literal {t : LiteralDeclaration} (htold : Draft.Tells types (.literal t)) :
    Declares types (.literal t) (literal t) :=
  declares_declare htold

/-- A declaration of constants is a choice between key terms. -/
theorem constant_eq (t : ConstantDeclaration) :
    constant t = declaredOr t.typeName (declare t.typeName (TypeDeclaration.constant t).entry >>=
      fillChoice (.constant t)) := by
  unfold fillChoice TypeDeclaration.requests
  simp only [List.mapM_map]
  rfl

/-- A declaration of operators is a choice between key terms. -/
theorem operator_eq (t : OperatorDeclaration) :
    operator t = declaredOr t.typeName (declare t.typeName (TypeDeclaration.operator t).entry >>=
      fillChoice (.operator t)) := by
  unfold fillChoice TypeDeclaration.requests
  simp only [List.mapM_map]
  rfl

/-- Declaring constants leaves them declared. -/
theorem declares_constant {t : ConstantDeclaration} (htold : Draft.Tells types (.constant t)) :
    Declares types (.constant t) (constant t) := by
  rw [constant_eq]
  exact declares_choice htold rfl fun _ keys hkeys => ⟨keys, hkeys, rfl⟩

/-- Declaring operators leaves them declared. -/
theorem declares_operator {t : OperatorDeclaration} (htold : Draft.Tells types (.operator t)) :
    Declares types (.operator t) (operator t) := by
  rw [operator_eq]
  exact declares_choice htold rfl fun _ keys hkeys => ⟨keys, hkeys, rfl⟩

/-- Every call is sound, if the declaration that it is about is told apart. -/
theorem respects_call (call : Call)
    (htold : ∀ d, call.declaration? = some d → Draft.Tells types d) : call.run.Respects types := by
  cases call with
  | identifier type => exact follows_map (declares_identifier (htold _ rfl)).respects
  | literal type => exact follows_map (declares_literal (htold _ rfl)).respects
  | constant type => exact follows_map (declares_constant (htold _ rfl)).respects
  | operator type => exact follows_map (declares_operator (htold _ rfl)).respects
  | key request => exact follows_map (respects_key request)
  | braces opening inside closing omissible => exact respects_braces _ _ _ _
  | optional shape => exact respects_optional _
  | list element shape delimiter bounds => exact respects_list _ _ _ _
  | withoutNode shape => exact respects_withoutNode _
  | custom name shape maker => exact respects_custom _ _ _

end Drafting

end TypedGrammar
