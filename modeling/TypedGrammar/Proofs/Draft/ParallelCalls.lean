import TypedGrammar.Proofs.Draft.Parallel

/-!
# Parallel calls

The same call is parallel to itself, and to the call that puts like shapes together.  What becomes
of a shape may depend on more than what it matches: it matters whether it is a single term, which
needs no group of its own, and whether it is a choice without alternatives.
-/

namespace TypedGrammar

namespace Drafting

open Draft

variable {R R' : TermIndex → TermIndex → Prop} {a b : Draft} {s t : Shape} {i j : TermIndex}
  {entry : Entry} {typeName : String}

/-! ## Key terms -/

/-- Requesting a key term takes nothing away from a draft. -/
theorem follows_key_sizeLe (request : KeyRequest) : (key request).Follows SizeLe :=
  (follows_key request).imp fun _ _ hgrows => hgrows.size_le

/-- A key term is found in both drafts, refused in both, or added to both. -/
theorem parallel_key (request : KeyRequest) :
    Parallel R (fun R => R) (key request) (key request) := by
  intro R' _ a b halike
  have hanswers := halike.keyTerms.lookup request
  rw [runOn_key, runOn_key]
  generalize a.keyTerms.lookup request = found, b.keyTerms.lookup request = found' at hanswers
  cases hanswers with
  | refused => exact .error R' (le_refl R') halike
  | found hij => exact .ok R' (le_refl R') halike hij
  | unknown =>
    simp only
    cases hi : TermIndex.ofNat? a.entries.size with
    | none => exact .fullLeft (isFull_of_ofNat? hi)
    | some i =>
      cases hj : TermIndex.ofNat? b.entries.size with
      | none => exact .fullRight (isFull_of_ofNat? hj)
      | some j =>
        exact .ok (relating R' i j) (le_relating R' i j)
          (halike.gainKey (gains_key hi) (gains_key hj) rfl rfl rfl rfl rfl rfl)
          (relating_self R' i j)

/-- Key terms that are requested one after the other are found, refused or added in both drafts. -/
theorem parallel_mapM_key (requests : List KeyRequest) :
    Parallel R (fun R => List.Forall₂ R) (requests.mapM key) (requests.mapM key) := by
  induction requests generalizing R with
  | nil =>
    rw [List.mapM_nil]
    exact parallel_pure fun _ _ => .nil
  | cons request rest ih =>
    have hrest : (rest.mapM key).Follows SizeLe := follows_mapM follows_key_sizeLe rest
    rw [List.mapM_cons]
    refine (parallel_key request).bind (fun _ => follows_bind hrest fun _ => follows_pure _)
      (fun _ => follows_bind hrest fun _ => follows_pure _) fun R₁ _ i j hij => ?_
    refine ih.bind (fun _ => follows_pure _) (fun _ => follows_pure _) fun R₂ hR₂ is js hrels => ?_
    exact parallel_pure fun R₃ hR₃ => .cons (hR₃ _ _ (hR₂ _ _ hij))
      (hrels.imp fun _ _ => hR₃ _ _)

/-! ## Composites -/

/-- A step that makes rules only: names and key terms stay as they are, and it fails only when the
numbers of terms are used up. -/
structure MakesRules {α : Type} (p : Drafting α) : Prop where
  names : p.Follows KeepsNames
  size : p.Follows SizeLe
  full : ∀ draft e after, p.runOn draft = (.error e, after) → after.IsFull

instance : Std.Refl KeepsNames :=
  ⟨fun _ => ⟨rfl, rfl, rfl⟩⟩

instance : IsTrans Draft KeepsNames :=
  ⟨fun _ _ _ h h' => ⟨h'.declared.trans h.declared, h'.claims.trans h.claims,
    h'.keyTerms.trans h.keyTerms⟩⟩

section MakesRules

variable {α β : Type} {p : Drafting α} {f : α → Drafting β}

/-- Giving an answer makes nothing. -/
theorem makesRules_pure (x : α) : MakesRules (pure x : Drafting α) where
  names := follows_pure x
  size := follows_pure x
  full _ _ _ h := nomatch h

/-- Looking at the draft makes nothing. -/
theorem makesRules_get : MakesRules (get : Drafting Draft) where
  names := follows_get
  size := follows_get
  full _ _ _ h := nomatch h

/-- Steps one after the other make rules only, if each does. -/
theorem makesRules_bind (hp : MakesRules p) (hf : ∀ x, MakesRules (f x)) :
    MakesRules (p >>= f) where
  names := follows_bind hp.names fun x => (hf x).names
  size := follows_bind hp.size fun x => (hf x).size
  full draft e after h := by
    rw [runOn_bind] at h
    rcases hrun : p.runOn draft with ⟨e' | x, middle⟩
    · rw [hrun] at h
      obtain ⟨_, rfl⟩ := Prod.mk.inj h
      exact hp.full draft e' middle hrun
    · rw [hrun] at h
      exact (hf x).full middle e after h

/-- A change makes no more than rules, if it keeps the names and does not shrink the draft. -/
theorem makesRules_modify {change : Draft → Draft}
    (hnames : ∀ draft : Draft, draft.KeepsNames (change draft))
    (hsize : ∀ draft : Draft, draft.SizeLe (change draft)) :
    MakesRules (modify change : Drafting Unit) where
  names := hnames
  size := hsize
  full _ _ _ h := nomatch h

/-- A rule of any shape is made. -/
theorem makesRules_defineRule (name : String) (flags : Flags) (maker : Option Maker)
    (shape : Shape) : MakesRules (defineRule name flags maker shape) where
  names draft := by
    rw [runOn_defineRule]
    split <;> exact ⟨rfl, rfl, rfl⟩
  size := (grows_defineRule name flags maker shape).imp fun _ _ hgrows => hgrows.size_le
  full draft e after h := by
    rw [runOn_defineRule] at h
    split at h
    · cases h
    · next hnone =>
      obtain ⟨_, rfl⟩ := Prod.mk.inj h
      exact isFull_of_ofNat? hnone

end MakesRules

/-- A rule is made and noted, if the note keeps the names and does not shrink the draft. -/
theorem makesRules_noteRule {name : String} {flags : Flags} {maker : Option Maker} {shape : Shape}
    {note : TermIndex → Draft → Draft}
    (hnames : ∀ index (draft : Draft), draft.KeepsNames (note index draft))
    (hsize : ∀ index (draft : Draft), draft.SizeLe (note index draft)) :
    MakesRules (noteRule name flags maker shape note) :=
  makesRules_bind (makesRules_defineRule name flags maker shape) fun index =>
    makesRules_bind (makesRules_modify (hnames index) (hsize index)) fun _ => makesRules_pure _

/-- A group is a rule, if it needs one at all. -/
theorem makesRules_group (shape : Shape) : MakesRules (group shape) := by
  unfold group
  split
  · exact makesRules_pure shape
  · refine makesRules_bind makesRules_get fun draft => ?_
    split
    · exact makesRules_pure _
    · exact makesRules_bind makesRules_get fun draft =>
        makesRules_noteRule (fun _ _ => ⟨rfl, rfl, rfl⟩) fun _ _ => Nat.le_refl _

/-- An optional part is a rule. -/
theorem makesRules_optional (shape : Shape) : MakesRules (optional shape) := by
  unfold optional
  refine makesRules_bind makesRules_get fun draft => ?_
  split
  · exact makesRules_pure _
  · exact makesRules_bind makesRules_get fun draft =>
      makesRules_noteRule (fun _ _ => ⟨rfl, rfl, rfl⟩) fun _ _ => Nat.le_refl _

/-- A list is a rule, besides the group of its item. -/
theorem makesRules_list (element : ValueType) (shape : Shape) (delimiter : Option Shape)
    (bounds : Bounds) : MakesRules (list element shape delimiter bounds) := by
  unfold list
  refine makesRules_bind makesRules_get fun draft => ?_
  split
  · exact makesRules_pure _
  · exact makesRules_bind (makesRules_group shape) fun item =>
      makesRules_bind makesRules_get fun draft =>
        makesRules_noteRule (fun _ _ => ⟨rfl, rfl, rfl⟩) fun _ _ => Nat.le_refl _

/-- Braces between known symbols are a rule, besides the group of what is inside. -/
theorem makesRules_bracesBetween (openIndex closeIndex : TermIndex) (spec : BraceSpec) :
    MakesRules (bracesBetween openIndex closeIndex spec) :=
  makesRules_bind (makesRules_group spec.inside) fun _ => makesRules_bind makesRules_get fun _ =>
    makesRules_noteRule (fun _ _ => ⟨rfl, rfl, rfl⟩) fun _ _ => Nat.le_refl _

/-- Two results are single terms that are related. -/
def SameTerm (R : TermIndex → TermIndex → Prop) (s t : Shape) : Prop :=
  ∃ i j, s = .term i ∧ t = .term j ∧ R i j

/-- Steps that only make rules are parallel, if the terms that answer them are related. -/
theorem runsAlike_answered {p q : Drafting Shape} {request request' : Request}
    (halike : Draft.Alike R a b) (hp : MakesRules p) (hq : MakesRules q)
    (hanswered : Answered request a (p.runOn a)) (hanswered' : Answered request' b (q.runOn b))
    (hrelate : ∀ a' b' i j, Draft.Alike R a' b' → a'.known? request = some i →
      b'.known? request' = some j → ∃ R', R ≤ R' ∧ Draft.Alike R' a' b' ∧ R' i j) :
    RunsAlike R SameTerm (p.runOn a) (q.runOn b) := by
  have hnames := hp.names a
  have hnames' := hq.names b
  rcases hrun : p.runOn a with ⟨e | s, a'⟩
  · exact .fullLeft (hp.full a e a' hrun)
  · rcases hrun' : q.runOn b with ⟨e | t, b'⟩
    · exact .fullRight (hq.full b e b' hrun')
    · rw [hrun] at hnames hanswered
      rw [hrun'] at hnames' hanswered'
      obtain ⟨hgrows, hknown⟩ := hanswered
      obtain ⟨hgrows', hknown'⟩ := hanswered'
      obtain ⟨i, hs, hi⟩ := hknown s rfl
      obtain ⟨j, ht, hj⟩ := hknown' t rfl
      have hafter := halike.grow hgrows hgrows' hnames hnames'
      obtain ⟨R', hR, halike', hij⟩ := hrelate a' b' i j hafter hi hj
      exact .ok R' hR halike' ⟨i, j, hs, ht, hij⟩

/-- Optional parts that are alike are registered in parallel. -/
theorem parallel_optional (hlike : s.Alike R t)
    (hempty : s.alternatives = [] ↔ t.alternatives = []) :
    Parallel R SameTerm (optional s) (optional t) := by
  intro R' hR a b halike
  refine runsAlike_answered halike (makesRules_optional s) (makesRules_optional t)
    (answers_optional s a) (answers_optional t b) fun a' b' i j halike' hi hj => ?_
  exact halike'.relate_optional (hlike.mono hR) hempty hi hj

/-- Lists of items that are alike are registered in parallel, if both items are single terms or
neither is. -/
theorem parallel_list {delimiter delimiter' : Option Shape} (element : ValueType) (bounds : Bounds)
    (hlike : s.Alike R t) (hsingle : s.term?.isSome = t.term?.isSome)
    (hdelimiter : Option.Rel (Shape.Alike R) delimiter delimiter') :
    Parallel R SameTerm (list element s delimiter bounds) (list element t delimiter' bounds) := by
  intro R' hR a b halike
  have hdelimiter' : Option.Rel (Shape.Alike R') delimiter delimiter' :=
    optionRel_imp hdelimiter fun _ _ hlike => hlike.mono hR
  refine runsAlike_answered halike (makesRules_list element s delimiter bounds)
    (makesRules_list element t delimiter' bounds) (answers_list element s delimiter bounds a)
    (answers_list element t delimiter' bounds b) fun a' b' i j halike' hi hj => ?_
  exact halike'.relate_list (hlike.mono hR) hsingle hdelimiter' hi hj

/-! ### Braces -/

/-- A brace is found, or made once the terms of its symbols are known. -/
def bracesOr (openIndex closeIndex : TermIndex) (spec : BraceSpec) : Drafting Shape := do
  match (← get).braces.lookup spec with
  | some index => return .term index
  | none => bracesBetween openIndex closeIndex spec

/-- In an exact draft, the symbols of a brace that is found may be asked for before. -/
theorem runOn_braces_eq (opening : String) (inside : Shape) (closing : String) (omissible : Bool)
    {draft : Draft} (hdraft : draft.IsConsistent ∧ draft.IsExact) :
    (braces opening inside closing omissible).runOn draft = (do
      let openIndex ← textKey opening (.ofList [.openBrace])
      let closeIndex ← textKey closing (.ofList [.closeBrace])
      bracesOr openIndex closeIndex ⟨opening, inside, closing, omissible⟩ :
        Drafting Shape).runOn draft := by
  rw [runOn_braces]
  cases hlookup : draft.braces.lookup ⟨opening, inside, closing, omissible⟩ with
  | some index =>
    obtain ⟨entry, hentry, _⟩ := hdraft.1.known (.braces _) index hlookup
    obtain ⟨_, hopening, hclosing⟩ := hdraft.2.flags (.braces _) index entry hlookup hentry
    obtain ⟨openIndex, hopen⟩ := runOn_key_of_hasKey hopening
    obtain ⟨closeIndex, hclose⟩ := runOn_key_of_hasKey hclosing
    have hopen' : (textKey opening (.ofList [.openBrace])).runOn draft = (.ok openIndex, draft) :=
      hopen
    have hclose' : (textKey closing (.ofList [.closeBrace])).runOn draft =
        (.ok closeIndex, draft) := hclose
    simp only
    rw [runOn_bind, hopen']
    simp only
    rw [runOn_bind, hclose']
    simp only
    unfold bracesOr
    rw [runOn_bind, runOn_get]
    simp only
    rw [hlookup]
    rfl
  | none =>
    simp only
    -- To register the symbols notes no braces.
    obtain ⟨first, opened, hopen, _, htable, _⟩ :=
      textKey_cases opening (.ofList [.openBrace]) draft
    rw [runOn_bind, runOn_bind, hopen]
    cases first with
    | error e => rfl
    | ok openIndex =>
      obtain ⟨second, closed, hclose, _, htable', _⟩ :=
        textKey_cases closing (.ofList [.closeBrace]) opened
      simp only
      rw [runOn_bind, runOn_bind, hclose]
      cases second with
      | error e => rfl
      | ok closeIndex =>
        simp only
        unfold bracesOr
        rw [runOn_bind, runOn_get]
        simp only
        rw [htable', htable, hlookup]

/-- The same holds if the braces may be known already. -/
theorem makesRules_bracesOr (openIndex closeIndex : TermIndex) (spec : BraceSpec) :
    MakesRules (bracesOr openIndex closeIndex spec) := by
  unfold bracesOr
  refine makesRules_bind makesRules_get fun draft => ?_
  split
  · exact makesRules_pure _
  · exact makesRules_bracesBetween _ _ _

/-- Once their symbols are known, braces are answered by a term. -/
theorem answered_bracesOr {spec : BraceSpec} {openIndex closeIndex : TermIndex} {draft : Draft}
    (hopen : draft.known? (.key spec.opening) = some openIndex)
    (hclose : draft.known? (.key spec.closing) = some closeIndex)
    (hopenKey : draft.HasKey (.ofText spec.opening (.ofList [.openBrace])))
    (hcloseKey : draft.HasKey (.ofText spec.closing (.ofList [.closeBrace]))) :
    Answered (.braces spec) draft ((bracesOr openIndex closeIndex spec).runOn draft) := by
  unfold bracesOr
  rw [runOn_bind, runOn_get]
  simp only
  cases hlookup : draft.braces.lookup spec with
  | some index => exact answered_found hlookup
  | none => exact answered_bracesBetween hlookup hopen hclose hopenKey hcloseKey

/-- What is known of the symbols of a brace once they are registered. -/
theorem symbols_of_run {opening closing : String} {draft opened closed : Draft}
    {openIndex closeIndex : TermIndex}
    (hopen : (textKey opening (.ofList [.openBrace])).runOn draft = (.ok openIndex, opened))
    (hclose : (textKey closing (.ofList [.closeBrace])).runOn opened = (.ok closeIndex, closed)) :
    closed.known? (.key opening) = some openIndex ∧ closed.known? (.key closing) = some closeIndex ∧
      closed.HasKey (.ofText opening (.ofList [.openBrace])) ∧
      closed.HasKey (.ofText closing (.ofList [.closeBrace])) := by
  have hgrows : opened.Grows closed := by
    have hfollows := follows_key (.ofText closing (.ofList [.closeBrace])) opened
    have hrun : (key (.ofText closing (.ofList [.closeBrace]))).runOn opened =
        (.ok closeIndex, closed) := hclose
    rwa [hrun] at hfollows
  exact ⟨hgrows.known _ _ (known_of_key hopen), known_of_key hclose,
    (hasKey_of_key (KeyRequest.ofText_agrees _ _) hopen).mono hgrows.keys,
    hasKey_of_key (KeyRequest.ofText_agrees _ _) hclose⟩

/-- Braces around shapes that are alike are registered in parallel, if both shapes are single terms
or neither is; where the symbols may be left out, if both or neither are choices of nothing. -/
theorem parallel_braces (opening closing : String) (omissible : Bool) (hlike : s.Alike R t)
    (hsingle : s.term?.isSome = t.term?.isSome)
    (hempty : omissible = true → (s.alternatives = [] ↔ t.alternatives = [])) :
    Parallel R SameTerm (braces opening s closing omissible)
      (braces opening t closing omissible) := by
  intro R' hR a b halike
  have hsize : ∀ shape openIndex, (do
      let closeIndex ← textKey closing (.ofList [.closeBrace])
      bracesOr openIndex closeIndex ⟨opening, shape, closing, omissible⟩ :
        Drafting Shape).Follows SizeLe := fun shape openIndex =>
    follows_bind (follows_key_sizeLe _) fun closeIndex => (makesRules_bracesOr _ _ _).size
  rw [runOn_braces_eq _ _ _ _ halike.left, runOn_braces_eq _ _ _ _ halike.right]
  refine RunsAlike.bind (parallel_key _ R' (le_refl R') a b halike) (hsize s) (hsize t) ?_
  intro R₁ hR₁ openIndex openIndex' a₁ b₁ hopen hopen' halike₁ _
  refine RunsAlike.bind (parallel_key _ R₁ (le_refl R₁) a₁ b₁ halike₁)
    (fun _ => (makesRules_bracesOr _ _ _).size) (fun _ => (makesRules_bracesOr _ _ _).size) ?_
  intro R₂ hR₂ closeIndex closeIndex' a₂ b₂ hclose hclose' halike₂ _
  obtain ⟨ho, hc, hok, hck⟩ := symbols_of_run hopen hclose
  obtain ⟨ho', hc', hok', hck'⟩ := symbols_of_run hopen' hclose'
  refine runsAlike_answered halike₂ (makesRules_bracesOr _ _ _) (makesRules_bracesOr _ _ _)
    (answered_bracesOr ho hc hok hck) (answered_bracesOr ho' hc' hok' hck') ?_
  intro a₃ b₃ i j halike₃ hi hj
  exact halike₃.relate_braces (hlike.mono (le_trans hR (le_trans hR₁ hR₂))) hsingle hempty hi hj

/-! ### Rules that are not asked for again -/

/-- Rules with like shapes, and the same flags and maker, are added in parallel. -/
theorem parallel_defineRule (name name' : String) (flags : Flags) (maker : Option Maker)
    (hignores : ∀ m, maker = some m → m.IgnoresNames) (hlike : s.Alike R t) :
    Parallel R (fun R => R) (defineRule name flags maker s) (defineRule name' flags maker t) := by
  intro R' hR a b halike
  rw [runOn_defineRule, runOn_defineRule]
  cases hi : TermIndex.ofNat? a.entries.size with
  | none => exact .fullLeft (isFull_of_ofNat? hi)
  | some i =>
    cases hj : TermIndex.ofNat? b.entries.size with
    | none => exact .fullRight (isFull_of_ofNat? hj)
    | some j =>
      have hnew := halike.left.1.isUndeclared (Nat.le_of_eq (value_of_ofNat? hi).symm)
      have hnew' := halike.right.1.isUndeclared (Nat.le_of_eq (value_of_ofNat? hj).symm)
      have hgrows : a.Grows (a.pushEntry { name, kind := .rule (some s), flags, maker }) :=
        grows_pushEntry nofun
      have hgrows' : b.Grows
          (b.pushEntry { name := name', kind := .rule (some t), flags, maker }) :=
        grows_pushEntry nofun
      have hafter := halike.grow hgrows hgrows' ⟨rfl, rfl, rfl⟩ ⟨rfl, rfl, rfl⟩
      refine .ok (relating R' i j) (le_relating R' i j) (hafter.relate ?_ hnew hnew')
        (relating_self R' i j)
      exact alikeAt_rule hignores (getElem?_push_ofNat? hi) (getElem?_push_ofNat? hj) rfl rfl
        (hlike.mono hR) rfl rfl rfl rfl

/-- A rule without a node is named after its shape. -/
theorem runOn_withoutNode (shape : Shape) (draft : Draft) :
    (withoutNode shape).runOn draft =
      (Shape.term <$> defineRule ("~" ++ draft.label shape) (.ofList [.noNode]) none shape).runOn
        draft := by
  rw [withoutNode, runOn_bind, runOn_get]
  rfl

/-- Shapes without nodes are registered in parallel, if they are alike. -/
theorem parallel_withoutNode (hlike : s.Alike R t) :
    Parallel R SameTerm (withoutNode s) (withoutNode t) := by
  intro R' hR a b halike
  rw [runOn_withoutNode, runOn_withoutNode]
  have hignores : ∀ m, none = some m → Maker.IgnoresNames m := fun _ hm => nomatch hm
  have hrule := parallel_defineRule ("~" ++ a.label s) ("~" ++ b.label t) (.ofList [.noNode]) none
    hignores (hlike.mono hR)
  exact hrule.map (fun R'' _ i j hij => ⟨i, j, rfl, rfl, hij⟩) R' (le_refl R') a b halike

/-- Shapes with a maker of their own are registered in parallel, if they are alike. -/
theorem parallel_custom (name : String) {maker : Maker} (hmaker : maker.IgnoresNames)
    (hlike : s.Alike R t) : Parallel R SameTerm (custom name s maker) (custom name t maker) := by
  have hignores : ∀ m, some maker = some m → m.IgnoresNames := fun m hm =>
    Option.some.inj hm ▸ hmaker
  exact (parallel_defineRule name name .none (some maker) hignores hlike).map
    fun _ _ i j hij => ⟨i, j, rfl, rfl, hij⟩

/-! ## Declarations -/

/-- After the name is claimed, a declaration gets the next number in both drafts. -/
theorem runsAlike_claimed {claims : List (String × String)} (halike : Draft.Alike R a b)
    (hnew : a.known? (.declared typeName) = none) (hnew' : b.known? (.declared typeName) = none)
    (hmaker : entry.HasMaker) (hshape : entry.shape? = none)
    (hkeeps : KeepsClaims a.claims claims) (hclaimed : claims.lookup entry.name = some typeName) :
    RunsAlike R (fun R => R)
      ((do
        let index ← push entry
        modify fun draft => { draft with declared := (typeName, index) :: draft.declared }
        return index : Drafting TermIndex).runOn { a with claims })
      ((do
        let index ← push entry
        modify fun draft => { draft with declared := (typeName, index) :: draft.declared }
        return index : Drafting TermIndex).runOn { b with claims }) := by
  rw [runOn_bind, runOn_bind, runOn_push, runOn_push]
  simp only
  cases hi : TermIndex.ofNat? a.entries.size with
  | none => exact .fullLeft (isFull_of_ofNat? hi)
  | some i =>
    cases hj : TermIndex.ofNat? b.entries.size with
    | none => exact .fullRight (isFull_of_ofNat? hj)
    | some j =>
      have hgains := gains_declare hnew hmaker hi hkeeps hclaimed
      have hgains' := gains_declare hnew' hmaker hj (halike.claims ▸ hkeeps) hclaimed
      exact .ok (relating R i j) (le_relating R i j)
        (halike.gainDeclared hgains hgains' hshape rfl rfl rfl rfl rfl) (relating_self R i j)

/-- A declaration that is new to both drafts is refused in both, or registered in both. -/
theorem runsAlike_declare (halike : Draft.Alike R a b)
    (hnew : a.known? (.declared typeName) = none) (hnew' : b.known? (.declared typeName) = none)
    (hmaker : entry.HasMaker) (hshape : entry.shape? = none) :
    RunsAlike R (fun R => R) ((declare typeName entry).runOn a)
      ((declare typeName entry).runOn b) := by
  obtain ⟨result, claims, hclaim, hkeeps, hclaimed⟩ := claim_cases typeName entry.name a.claims
  unfold declare
  rw [runOn_bind, runOn_bind, hclaim a rfl, hclaim b halike.claims.symm]
  cases result with
  | error e =>
    have hafter := halike.claims ▸ hkeeps
    refine .error R (le_refl R) ⟨halike.entries, halike.sole, halike.declared, halike.keyTerms, rfl,
      (grows_claims hkeeps).settled halike.left, (grows_claims hafter).settled halike.right⟩
  | ok _ => exact runsAlike_claimed halike hnew hnew' hmaker hshape hkeeps (hclaimed rfl)

/-- A declaration is found in both drafts, or registered in both and then completed. -/
theorem parallel_declaredOr {fill fill' : TermIndex → Drafting TermIndex} (hmaker : entry.HasMaker)
    (hshape : entry.shape? = none) (hsize : ∀ i, (fill i).Follows SizeLe)
    (hsize' : ∀ j, (fill' j).Follows SizeLe)
    (hfill : ∀ R' a b i j, R ≤ R' → Draft.Alike R' a b → a.declared.lookup typeName = some i →
      b.declared.lookup typeName = some j → a.entries[i.value]? = some entry →
        RunsAlike R' (fun R => R) ((fill i).runOn a) ((fill' j).runOn b)) :
    Parallel R (fun R => R) (declaredOr typeName (declare typeName entry >>= fill))
      (declaredOr typeName (declare typeName entry >>= fill')) := by
  intro R' hR a b halike
  have hdeclared := halike.declared typeName
  rw [runOn_declaredOr, runOn_declaredOr]
  cases hlookup : a.declared.lookup typeName with
  | some i =>
    rw [hlookup] at hdeclared
    cases hlookup' : b.declared.lookup typeName with
    | none =>
      rw [hlookup'] at hdeclared
      cases hdeclared
    | some j =>
      rw [hlookup'] at hdeclared
      cases hdeclared with
      | some hij => exact .ok R' (le_refl R') halike hij
  | none =>
    rw [hlookup] at hdeclared
    cases hlookup' : b.declared.lookup typeName with
    | some j =>
      rw [hlookup'] at hdeclared
      cases hdeclared
    | none =>
      refine RunsAlike.bind (runsAlike_declare halike hlookup hlookup' hmaker hshape)
        hsize hsize' ?_
      intro R₁ hR₁ i j a₁ b₁ hrun hrun' halike₁ _
      obtain ⟨hi, hentry, _⟩ := (grows_declare hlookup hmaker).2 i a₁ hrun
      obtain ⟨hj, _⟩ := (grows_declare hlookup' hmaker).2 j b₁ hrun'
      exact hfill R₁ a₁ b₁ i j (le_trans hR hR₁) halike₁ hi hj hentry

/-- A terminal is registered in parallel. -/
theorem parallel_declare (hmaker : entry.HasMaker) (hshape : entry.shape? = none) :
    Parallel R (fun R => R) (declaredOr typeName (declare typeName entry))
      (declaredOr typeName (declare typeName entry)) := by
  have hpure : declare typeName entry = declare typeName entry >>= pure := (bind_pure _).symm
  rw [hpure]
  refine parallel_declaredOr hmaker hshape (fun _ => follows_pure _) (fun _ => follows_pure _) ?_
  intro R' a b i j _ halike hi hj _
  exact .ok R' (le_refl R') halike (halike.of_declared hi hj)

/-- A choice between key terms is put together from the first to the last. -/
theorem choiceOf_cons (first : TermIndex) (rest : List TermIndex) :
    choiceOf (first :: rest) = (rest.map Shape.term).foldl (· ||| ·) (.term first) :=
  List.foldl_map.symm

/-- Choices between related key terms are alike. -/
theorem alike_choiceOf {keys keys' : List TermIndex} (h : List.Forall₂ R keys keys') :
    (choiceOf keys).Alike R (choiceOf keys') := by
  have hterm : ∀ index, (Shape.term index).alternatives ≠ [] := fun _ => List.cons_ne_nil _ _
  cases h with
  | nil => exact Shape.alike_empty
  | cons hfirst hrest =>
    rw [choiceOf_cons, choiceOf_cons]
    refine Shape.alike_foldl_or (Shape.alike_term hfirst) (iff_of_false (hterm _) (hterm _)) ?_
    rw [List.forall₂_map_left_iff, List.forall₂_map_right_iff]
    exact hrest.imp fun i j hij => ⟨Shape.alike_term hij, iff_of_false (hterm i) (hterm j)⟩

/-- Giving a choice its shape takes nothing away from a draft. -/
theorem follows_fillChoice (type : TypeDeclaration) (index : TermIndex) :
    (fillChoice type index).Follows SizeLe :=
  follows_bind (follows_mapM follows_key_sizeLe type.requests) fun _ =>
    follows_bind (fun draft => sizeLe_modifyTerm draft _ _) fun _ => follows_pure _

/-- A choice between key terms is registered in parallel. -/
theorem parallel_choice (type : TypeDeclaration) (hrule : type.entry.kind = .rule none)
    (hignores : ∀ m, type.entry.maker = some m → m.IgnoresNames) :
    Parallel R (fun R => R)
      (declaredOr type.typeName (declare type.typeName type.entry >>= fillChoice type))
      (declaredOr type.typeName (declare type.typeName type.entry >>= fillChoice type)) := by
  have hmaker : type.entry.HasMaker := Entry.hasMaker_of_kind hrule
  have hshape : type.entry.shape? = none := Term.shape?_of_kind hrule
  refine parallel_declaredOr hmaker hshape (follows_fillChoice type) (follows_fillChoice type) ?_
  intro R' a b i j _ halike hi hj hentry
  have hsize : ∀ (index : TermIndex) (keys : List TermIndex), (do
      setShape index (choiceOf keys)
      return index : Drafting TermIndex).Follows SizeLe := fun index keys =>
    follows_bind (fun draft => sizeLe_modifyTerm draft _ _) fun _ => follows_pure _
  refine RunsAlike.bind (parallel_mapM_key type.requests R' (le_refl R') a b halike) (hsize i)
    (hsize j) ?_
  intro R₁ hR₁ keys keys' a₁ b₁ hrun hrun' halike₁ hkeys
  -- The entry still waits for its shape when all key terms are registered.
  have hgrows := follows_mapM follows_key type.requests a
  have hgrows' := follows_mapM follows_key type.requests b
  rw [hrun] at hgrows
  rw [hrun'] at hgrows'
  have hi₁ := hgrows.known (.declared type.typeName) i hi
  have hj₁ := hgrows'.known (.declared type.typeName) j hj
  have hafter := halike₁.withShape hi₁ hj₁ (hgrows.entries _ _ hentry) hrule hignores
    (alike_choiceOf hkeys)
  exact .ok R₁ (le_refl R₁) hafter (hafter.of_declared hi₁ hj₁)

theorem parallel_identifier (type : IdentifierDeclaration) :
    Parallel R (fun R => R) (identifier type) (identifier type) :=
  parallel_declare (fun _ => rfl) rfl

theorem parallel_literal (type : LiteralDeclaration) :
    Parallel R (fun R => R) (literal type) (literal type) :=
  parallel_declare (fun _ => rfl) rfl

theorem parallel_constant (type : ConstantDeclaration) :
    Parallel R (fun R => R) (constant type) (constant type) := by
  rw [constant_eq]
  exact parallel_choice (.constant type) rfl fun m hm =>
    Option.some.inj hm ▸ Maker.ignoresNames_constant type.type

theorem parallel_operator (type : OperatorDeclaration) :
    Parallel R (fun R => R) (operator type) (operator type) := by
  rw [operator_eq]
  exact parallel_choice (.operator type) rfl fun _ hm => nomatch hm

end Drafting

end TypedGrammar
