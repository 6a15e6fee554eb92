import TypedGrammar.Proofs.Draft.Requests
import TypedGrammar.Proofs.Draft.Steps

/-!
# Growth of drafts

Every call lets the draft grow, whether it fails or not: what it registers before it fails stays,
and nothing else changes.  A call that succeeds has a term, and the draft knows it from then on.
-/

namespace TypedGrammar

instance : Std.Refl Draft.Grows :=
  ⟨Draft.Grows.refl⟩

instance : IsTrans Draft Draft.Grows :=
  ⟨fun _ _ _ => Draft.Grows.trans⟩

namespace Drafting

open Draft

variable {draft base after : Draft} {request : Request} {index : TermIndex} {entry : Entry}
  {typeName : String}

/-! ## Answers -/

/-- From a draft, a run lets the draft grow; if it succeeds, its result is a single term, which the
draft knows from then on as the answer to a request. -/
def Answered (request : Request) (draft : Draft) (run : Except Error Shape × Draft) : Prop :=
  draft.Grows run.2 ∧ ∀ shape, run.1 = .ok shape →
    ∃ index, shape = .term index ∧ run.2.known? request = some index

/-- A step that answers a request wherever it begins. -/
def Answers (request : Request) (p : Drafting Shape) : Prop :=
  ∀ draft, Answered request draft (p.runOn draft)

/-- What is known already is an answer, and the draft stays as it is. -/
theorem answered_found (hknown : draft.known? request = some index) :
    Answered request draft (.ok (.term index), draft) :=
  ⟨.refl draft, fun _ h => ⟨index, (Except.ok.inj h).symm, hknown⟩⟩

/-- A failure answers nothing, if the draft has only grown. -/
theorem answered_error (hgrows : draft.Grows after) (e : Error) :
    Answered request draft (.error e, after) :=
  ⟨hgrows, nofun⟩

/-- An answer from a later draft is one from an earlier draft as well. -/
theorem Answered.trans {run : Except Error Shape × Draft} (hgrows : base.Grows draft)
    (h : Answered request draft run) : Answered request base run :=
  ⟨hgrows.trans h.1, h.2⟩

/-- A step that answers a request lets the draft grow. -/
theorem Answers.follows {p : Drafting Shape} (h : Answers request p) : p.Follows Grows :=
  fun draft => (h draft).1

/-! ## Key terms -/

/-- A key term that is new comes with its entry. -/
theorem gains_key {request : KeyRequest}
    (hindex : TermIndex.ofNat? draft.entries.size = some index) :
    Gains (.key request.name) index request.entry draft { draft.pushEntry request.entry with
      keyTerms := draft.keyTerms.push { request with term := index } } where
  number := hindex
  entries := rfl
  maker _ := rfl
  claims _ _ h := h
  keys name key h := by
    rw [KeyTermTable.get?_push, h, Option.some_or]
  learns other := by
    cases other with
    | key name =>
      show ((draft.keyTerms.push { request with term := index }).get? name).map _ =
        ((draft.keyTerms.get? name).map _).or _
      rw [KeyTermTable.get?_push]
      by_cases hname : request.name = name
      · cases draft.keyTerms.get? name <;> simp [hname]
      · cases draft.keyTerms.get? name <;> simp [hname, Ne.symm hname]
    | _ => simp [known?, pushEntry]
  fulfils := ⟨rfl, request.text, rfl⟩
  exactly := trivial

/-- A key term is found, refused, or added. -/
theorem answers_key (request : KeyRequest) :
    Answers (.key request.name) (.term <$> key request) := by
  intro draft
  rw [runOn_map, runOn_key]
  split
  · exact answered_error (.refl draft) _
  · next index hlookup =>
    obtain ⟨existing, hexisting, _, rfl⟩ := KeyTermTable.lookup_eq_some hlookup
    refine answered_found ?_
    show (draft.keyTerms.get? request.name).map _ = _
    rw [hexisting]
    rfl
  · next hlookup =>
    have hnew : draft.known? (.key request.name) = none := by
      show (draft.keyTerms.get? request.name).map _ = none
      rw [KeyTermTable.lookup_eq_none hlookup]
      rfl
    split
    · next index hindex =>
      have hgains : Gains (.key request.name) index request.entry draft _ := gains_key hindex
      exact ⟨hgains.grows, fun _ h => ⟨index, (Except.ok.inj h).symm, hgains.learns.known hnew⟩⟩
    · exact answered_error (.refl draft) _

/-- Requesting a key term lets the draft grow. -/
theorem follows_key (request : KeyRequest) : (key request).Follows Grows := by
  intro draft
  have h := (answers_key request draft).1
  rw [runOn_map] at h
  exact h

/-- A key term that was requested is known from then on. -/
theorem known_of_key {request : KeyRequest} (h : (key request).runOn draft = (.ok index, after)) :
    after.known? (.key request.name) = some index := by
  obtain ⟨_, hanswer⟩ := answers_key request draft
  rw [runOn_map, h] at hanswer
  obtain ⟨found, hfound, hknown⟩ := hanswer (.term index) rfl
  obtain rfl := Shape.term.inj hfound
  exact hknown

/-- A key term that was asked for agrees with the request, if this agrees with itself. -/
theorem hasKey_of_key {request : KeyRequest} (hself : request.agrees request = true)
    (h : (key request).runOn draft = (.ok index, after)) : after.HasKey request := by
  rw [runOn_key] at h
  split at h
  · cases h
  · next found hlookup =>
    obtain ⟨rfl, rfl⟩ := ok_inj h
    obtain ⟨existing, hexisting, hagrees, _⟩ := KeyTermTable.lookup_eq_some hlookup
    exact ⟨existing, hexisting, hagrees⟩
  · next hlookup =>
    split at h
    · next found hindex =>
      obtain ⟨rfl, rfl⟩ := ok_inj h
      refine ⟨{ request with term := found }, ?_, hself⟩
      show (draft.keyTerms.push { request with term := found }).get? request.name = _
      rw [KeyTermTable.get?_push, KeyTermTable.lookup_eq_none hlookup, Option.none_or, if_pos rfl]
    · cases h

/-- A key term that is there is found. -/
theorem runOn_key_of_hasKey {request : KeyRequest} (h : draft.HasKey request) :
    ∃ index, (key request).runOn draft = (.ok index, draft) := by
  obtain ⟨existing, hexisting, hagrees⟩ := h
  have hlookup : draft.keyTerms.lookup request = .ok (some existing.term) := by
    unfold KeyTermTable.lookup
    rw [hexisting]
    simp only
    rw [if_pos hagrees]
  refine ⟨existing.term, ?_⟩
  rw [runOn_key, hlookup]

/-! ## Composites -/

/-- Adds a rule with its shape, and notes its term. -/
def noteRule (name : String) (flags : Flags) (maker : Option Maker) (shape : Shape)
    (note : TermIndex → Draft → Draft) : Drafting Shape := do
  let index ← defineRule name flags maker shape
  modify (note index)
  return .term index

/-- A rule is added and noted, unless the numbers of terms are used up. -/
@[simp] theorem runOn_noteRule (name : String) (flags : Flags) (maker : Option Maker)
    (shape : Shape) (note : TermIndex → Draft → Draft) (draft : Draft) :
    (noteRule name flags maker shape note).runOn draft =
      match TermIndex.ofNat? draft.entries.size with
      | some index =>
        (.ok (.term index),
          note index (draft.pushEntry { name, kind := .rule (some shape), flags, maker }))
      | none => (.error (.rule name s!"grammar exceeds {termLimit} terms"), draft) := by
  unfold noteRule
  rw [runOn_bind, runOn_defineRule]
  cases TermIndex.ofNat? draft.entries.size <;> rfl

/-- A note says nothing but that a term answers a request. -/
structure Notes (request : Request) (note : TermIndex → Draft → Draft) : Prop where
  entries : ∀ index draft, (note index draft).entries = draft.entries
  claims : ∀ index draft, (note index draft).claims = draft.claims
  keyTerms : ∀ index draft, (note index draft).keyTerms = draft.keyTerms
  learns : ∀ index draft, draft.known? request = none →
    Learns request index draft (note index draft)

/-- A rule that is what was asked for is noted as the answer. -/
theorem answered_noteRule {name : String} {flags : Flags} {maker : Option Maker} {shape : Shape}
    {note : TermIndex → Draft → Draft} (hnotes : Notes request note)
    (hnew : draft.known? request = none)
    (hfulfils : draft.Fulfils { name, kind := .rule (some shape), flags, maker } request)
    (hexactly : draft.Exactly { name, kind := .rule (some shape), flags, maker } request) :
    Answered request draft ((noteRule name flags maker shape note).runOn draft) := by
  rw [runOn_noteRule]
  split
  · next index hindex =>
    -- The new entry is of no account to the tables.
    have hknown : ∀ entry, (draft.pushEntry entry).known? = draft.known? := fun entry => by
      funext other
      cases other with
      | _ => rfl
    have hlearns : Learns request index draft
        (note index (draft.pushEntry { name, kind := .rule (some shape), flags, maker })) := by
      intro other
      rw [hnotes.learns index _ (by rw [hknown, hnew]), hknown]
    have hclaims := hnotes.claims index
      (draft.pushEntry { name, kind := .rule (some shape), flags, maker })
    have hkeys := hnotes.keyTerms index
      (draft.pushEntry { name, kind := .rule (some shape), flags, maker })
    have hgains : Gains request index { name, kind := .rule (some shape), flags, maker } draft
        (note index (draft.pushEntry { name, kind := .rule (some shape), flags, maker })) := {
      number := hindex
      entries := hnotes.entries _ _
      maker := nofun
      claims := fun _ _ h => by rwa [hclaims]
      keys := fun _ _ h => by rwa [hkeys]
      learns := hlearns
      fulfils := hfulfils.mono (fun _ _ h => hlearns.of_known h) fun _ _ h => by rwa [hclaims]
      exactly := hexactly.mono fun _ _ h => by rwa [hkeys] }
    exact ⟨hgains.grows, fun _ h => ⟨index, (Except.ok.inj h).symm, hlearns.known hnew⟩⟩
  · exact answered_error (.refl draft) _

/-- A group is noted in its own table. -/
theorem notes_group (shape : Shape) : Notes (.group shape) fun index draft =>
    { draft with groups := (shape, index) :: draft.groups } where
  entries _ _ := rfl
  claims _ _ := rfl
  keyTerms _ _ := rfl
  learns index draft hnew other := by
    cases other with
    | group other =>
      simp only [Request.group.injEq]
      exact lookup_cons_eq_or hnew
    | _ => simp [known?]

/-- An optional part is noted in its own table. -/
theorem notes_optional (shape : Shape) : Notes (.optional shape) fun index draft =>
    { draft with optionals := (shape, index) :: draft.optionals } where
  entries _ _ := rfl
  claims _ _ := rfl
  keyTerms _ _ := rfl
  learns index draft hnew other := by
    cases other with
    | optional other =>
      simp only [Request.optional.injEq]
      exact lookup_cons_eq_or hnew
    | _ => simp [known?]

/-- A list is noted in its own table. -/
theorem notes_list (spec : ListSpec) : Notes (.list spec) fun index draft =>
    { draft with lists := (spec, index) :: draft.lists } where
  entries _ _ := rfl
  claims _ _ := rfl
  keyTerms _ _ := rfl
  learns index draft hnew other := by
    cases other with
    | list other =>
      simp only [Request.list.injEq]
      exact lookup_cons_eq_or hnew
    | _ => simp [known?]

/-- Braces are noted in their own table. -/
theorem notes_braces (spec : BraceSpec) : Notes (.braces spec) fun index draft =>
    { draft with braces := (spec, index) :: draft.braces } where
  entries _ _ := rfl
  claims _ _ := rfl
  keyTerms _ _ := rfl
  learns index draft hnew other := by
    cases other with
    | braces other =>
      simp only [Request.braces.injEq]
      exact lookup_cons_eq_or hnew
    | _ => simp [known?]

/-- A shape is one term, or is grouped by a rule that is found or added. -/
theorem runOn_group (shape : Shape) (draft : Draft) :
    (group shape).runOn draft =
      if shape.term?.isSome then (.ok shape, draft)
      else match draft.groups.lookup shape with
        | some index => (.ok (.term index), draft)
        | none => (noteRule (draft.label shape) .none none shape fun index draft =>
            { draft with groups := (shape, index) :: draft.groups }).runOn draft := by
  unfold group
  split
  · rfl
  · rw [runOn_bind, runOn_get]
    simp only
    cases draft.groups.lookup shape with
    | some index => rfl
    | none =>
      simp only
      rw [runOn_bind, runOn_get]
      rfl

/-- What becomes of a shape that is grouped. -/
theorem grows_group (shape : Shape) (draft : Draft) :
    draft.Grows ((group shape).runOn draft).2 ∧
      ∀ item after, (group shape).runOn draft = (.ok item, after) → after.IsGrouped shape item := by
  rw [runOn_group]
  split
  · next hterm =>
    refine ⟨.refl draft, fun item after h => ?_⟩
    obtain ⟨rfl, rfl⟩ := ok_inj h
    exact Or.inl ⟨hterm, rfl⟩
  · next hterm =>
    have hanswered : Answered (.group shape) draft
        (match draft.groups.lookup shape with
          | some index => (.ok (.term index), draft)
          | none => (noteRule (draft.label shape) .none none shape fun index draft =>
              { draft with groups := (shape, index) :: draft.groups }).runOn draft) := by
      split
      · next index hlookup => exact answered_found hlookup
      · next hlookup => exact answered_noteRule (notes_group shape) hlookup ⟨rfl, rfl⟩ rfl
    refine ⟨hanswered.1, fun item after h => ?_⟩
    obtain ⟨index, hitem, hknown⟩ := hanswered.2 item (congrArg Prod.fst h)
    rw [h] at hknown
    exact Or.inr ⟨Option.not_isSome_iff_eq_none.mp hterm, index, hknown, hitem⟩

/-- Key terms and groups are noted in tables of their own. -/
theorem braces_key (request : KeyRequest) (draft : Draft) :
    ((key request).runOn draft).2.braces = draft.braces := by
  rw [runOn_key]
  split
  · rfl
  · rfl
  · split <;> rfl

/-- Groups leave the tables of lists and braces as they are. -/
theorem tables_group (shape : Shape) (draft : Draft) :
    ((group shape).runOn draft).2.lists = draft.lists ∧
      ((group shape).runOn draft).2.braces = draft.braces := by
  rw [runOn_group]
  split
  · exact ⟨rfl, rfl⟩
  · split
    · exact ⟨rfl, rfl⟩
    · rw [runOn_noteRule]
      split <;> exact ⟨rfl, rfl⟩

/-- An optional part is found, or added as a rule for the shape or nothing. -/
theorem runOn_optional (shape : Shape) (draft : Draft) :
    (optional shape).runOn draft =
      match draft.optionals.lookup shape with
      | some index => (.ok (.term index), draft)
      | none => (noteRule (draft.label shape ++ "?") .none (some .optional) shape.orEmpty
          fun index draft => { draft with optionals := (shape, index) :: draft.optionals }).runOn
            draft := by
  unfold optional
  rw [runOn_bind, runOn_get]
  simp only
  cases draft.optionals.lookup shape with
  | some index => rfl
  | none =>
    simp only
    rw [runOn_bind, runOn_get]
    rfl

/-- An optional part answers the request for it. -/
theorem answers_optional (shape : Shape) : Answers (.optional shape) (optional shape) := by
  intro draft
  rw [runOn_optional]
  split
  · next index hlookup => exact answered_found hlookup
  · next hlookup => exact answered_noteRule (notes_optional shape) hlookup ⟨rfl, rfl⟩ rfl

/-- A list is found, or its item is grouped and a rule for the list is added. -/
theorem runOn_list (element : ValueType) (shape : Shape) (delimiter : Option Shape)
    (bounds : Bounds) (draft : Draft) :
    (list element shape delimiter bounds).runOn draft =
      match draft.lists.lookup ⟨element, shape, delimiter, bounds⟩ with
      | some index => (.ok (.term index), draft)
      | none =>
        match (group shape).runOn draft with
        | (.error e, middle) => (.error e, middle)
        | (.ok item, middle) =>
          (noteRule (middle.label item ++ Shape.countSign bounds) (.ofList [.list])
            (some (.list element)) (Shape.repetition item delimiter bounds) fun index draft =>
              { draft with lists := (⟨element, shape, delimiter, bounds⟩, index) ::
                draft.lists }).runOn middle := by
  unfold list
  rw [runOn_bind, runOn_get]
  simp only
  cases draft.lists.lookup ⟨element, shape, delimiter, bounds⟩ with
  | some index => rfl
  | none =>
    simp only
    rw [runOn_bind]
    rcases (group shape).runOn draft with ⟨e | item, middle⟩
    · rfl
    · simp only
      rw [runOn_bind, runOn_get]
      rfl

/-- A list answers the request for it. -/
theorem answers_list (element : ValueType) (shape : Shape) (delimiter : Option Shape)
    (bounds : Bounds) :
    Answers (.list ⟨element, shape, delimiter, bounds⟩) (list element shape delimiter bounds) := by
  intro draft
  rw [runOn_list]
  split
  · next index hlookup => exact answered_found hlookup
  · next hlookup =>
    obtain ⟨hgrows, hgrouped⟩ := grows_group shape draft
    have htable := (tables_group shape draft).1
    rcases hgroup : (group shape).runOn draft with ⟨e | item, middle⟩
    · rw [hgroup] at hgrows
      exact answered_error hgrows e
    · rw [hgroup] at hgrows htable
      have hnew : middle.known? (.list ⟨element, shape, delimiter, bounds⟩) = none := by
        show middle.lists.lookup _ = none
        rw [htable, hlookup]
      refine (answered_noteRule (notes_list _) hnew ?_ rfl).trans hgrows
      exact ⟨rfl, item, hgrouped item middle hgroup, rfl⟩

/-- A brace around a shape, once the terms of its symbols are known. -/
def bracesBetween (openIndex closeIndex : TermIndex) (spec : BraceSpec) : Drafting Shape := do
  let grouped ← group spec.inside
  let bracketed := Shape.term openIndex ++ grouped ++ Shape.term closeIndex
  let name := spec.opening ++ (← get).label spec.inside ++ spec.closing
  noteRule name .none (some .brace)
    (if spec.omissible then bracketed ||| spec.inside else bracketed)
    fun index draft => { draft with braces := (spec, index) :: draft.braces }

/-- A brace is found, or its symbols are registered first. -/
theorem runOn_braces (opening : String) (inside : Shape) (closing : String) (omissible : Bool)
    (draft : Draft) :
    (braces opening inside closing omissible).runOn draft =
      match draft.braces.lookup ⟨opening, inside, closing, omissible⟩ with
      | some index => (.ok (.term index), draft)
      | none => (do
          let openIndex ← textKey opening (.ofList [.openBrace])
          let closeIndex ← textKey closing (.ofList [.closeBrace])
          bracesBetween openIndex closeIndex ⟨opening, inside, closing, omissible⟩ :
            Drafting Shape).runOn draft := by
  unfold braces
  rw [runOn_bind, runOn_get]
  simp only
  cases draft.braces.lookup ⟨opening, inside, closing, omissible⟩ <;> rfl

/-- What is between the symbols is grouped, so that it is one part of the brace. -/
theorem answered_bracesBetween {spec : BraceSpec} {openIndex closeIndex : TermIndex}
    (hnew : draft.known? (.braces spec) = none)
    (hopen : draft.known? (.key spec.opening) = some openIndex)
    (hclose : draft.known? (.key spec.closing) = some closeIndex)
    (hopenKey : draft.HasKey (.ofText spec.opening (.ofList [.openBrace])))
    (hcloseKey : draft.HasKey (.ofText spec.closing (.ofList [.closeBrace]))) :
    Answered (.braces spec) draft ((bracesBetween openIndex closeIndex spec).runOn draft) := by
  obtain ⟨hgrows, hgrouped⟩ := grows_group spec.inside draft
  have htable := (tables_group spec.inside draft).2
  unfold bracesBetween
  rw [runOn_bind]
  rcases hgroup : (group spec.inside).runOn draft with ⟨e | item, middle⟩
  · rw [hgroup] at hgrows
    exact answered_error hgrows e
  · rw [hgroup] at hgrows htable
    simp only
    rw [runOn_bind, runOn_get]
    have hmiddle : middle.known? (.braces spec) = none := by
      show middle.braces.lookup spec = none
      rw [htable]
      exact hnew
    refine (answered_noteRule (notes_braces spec) hmiddle ?_ ?_).trans hgrows
    · exact ⟨rfl, openIndex, closeIndex, item, hgrows.known _ _ hopen, hgrows.known _ _ hclose,
        hgrouped item middle hgroup, rfl⟩
    · exact ⟨rfl, hopenKey.mono hgrows.keys, hcloseKey.mono hgrows.keys⟩

/-- A symbol of a brace: its term is known, and braces are not noted yet. -/
theorem textKey_cases (text : String) (flags : Flags) (draft : Draft) :
    ∃ result after, (textKey text flags).runOn draft = (result, after) ∧ draft.Grows after ∧
      after.braces = draft.braces ∧ ∀ index, result = .ok index →
        after.known? (.key text) = some index ∧ after.HasKey (.ofText text flags) := by
  rcases hkey : (textKey text flags).runOn draft with ⟨result, after⟩
  have hgrows := follows_key (.ofText text flags) draft
  have htable := braces_key (.ofText text flags) draft
  have hrun : (key (.ofText text flags)).runOn draft = (result, after) := hkey
  rw [hrun] at hgrows htable
  refine ⟨result, after, rfl, hgrows, htable, ?_⟩
  rintro index rfl
  exact ⟨known_of_key hrun, hasKey_of_key (KeyRequest.ofText_agrees text flags) hrun⟩

/-- Braces answer the request for them. -/
theorem answers_braces (opening : String) (inside : Shape) (closing : String) (omissible : Bool) :
    Answers (.braces ⟨opening, inside, closing, omissible⟩)
      (braces opening inside closing omissible) := by
  intro draft
  rw [runOn_braces]
  split
  · next index hlookup => exact answered_found hlookup
  · next hlookup =>
    obtain ⟨first, opened, hopen, hgrowsOpen, htableOpen, hopened⟩ :=
      textKey_cases opening (.ofList [.openBrace]) draft
    rw [runOn_bind, hopen]
    cases first with
    | error e => exact answered_error hgrowsOpen e
    | ok openIndex =>
      simp only
      obtain ⟨hopenKnown, hopenKey⟩ := hopened openIndex rfl
      obtain ⟨second, closed, hclose, hgrowsClose, htableClose, hclosed⟩ :=
        textKey_cases closing (.ofList [.closeBrace]) opened
      rw [runOn_bind, hclose]
      cases second with
      | error e => exact answered_error (hgrowsOpen.trans hgrowsClose) e
      | ok closeIndex =>
        obtain ⟨hcloseKnown, hcloseKey⟩ := hclosed closeIndex rfl
        have hnew : closed.known? (.braces ⟨opening, inside, closing, omissible⟩) = none := by
          show closed.braces.lookup _ = none
          rw [htableClose, htableOpen, hlookup]
        exact (answered_bracesBetween hnew (hgrowsClose.known _ _ hopenKnown) hcloseKnown
          (hopenKey.mono hgrowsClose.keys) hcloseKey).trans (hgrowsOpen.trans hgrowsClose)

/-! ## Rules that are not asked for again -/

/-- Adding a rule lets the draft grow. -/
theorem grows_defineRule (name : String) (flags : Flags) (maker : Option Maker) (shape : Shape) :
    (defineRule name flags maker shape).Follows Grows := by
  intro draft
  rw [runOn_defineRule]
  split
  · exact grows_pushEntry nofun
  · exact .refl draft

theorem follows_withoutNode (shape : Shape) : (withoutNode shape).Follows Grows :=
  follows_bind follows_get fun _ => follows_map (grows_defineRule _ _ _ _)

theorem follows_custom (name : String) (shape : Shape) (maker : Maker) :
    (custom name shape maker).Follows Grows :=
  follows_map (grows_defineRule _ _ _ _)

/-! ## Declarations -/

/-- A declaration that is new comes with its entry. -/
theorem gains_declare {claims : List (String × String)}
    (hnew : draft.known? (.declared typeName) = none) (hmaker : entry.HasMaker)
    (hindex : TermIndex.ofNat? draft.entries.size = some index)
    (hkeeps : KeepsClaims draft.claims claims) (hclaimed : claims.lookup entry.name = some typeName) :
    Gains (.declared typeName) index entry draft { draft.pushEntry entry with
      claims, declared := (typeName, index) :: draft.declared } where
  number := hindex
  entries := rfl
  maker := hmaker
  claims := hkeeps
  keys _ _ h := h
  learns other := by
    cases other with
    | declared other =>
      simp only [Request.declared.injEq]
      exact lookup_cons_eq_or hnew
    | _ => simp [known?, pushEntry]
  fulfils := hclaimed
  exactly := trivial

/-- A declaration that is new is refused, or it gets the next number and a pending entry. -/
theorem grows_declare (hnew : draft.known? (.declared typeName) = none) (hmaker : entry.HasMaker) :
    draft.Grows ((declare typeName entry).runOn draft).2 ∧
      ∀ index after, (declare typeName entry).runOn draft = (.ok index, after) →
        after.known? (.declared typeName) = some index ∧
          after.entries[index.value]? = some entry ∧ index.value = draft.entries.size := by
  rcases declare_cases typeName entry draft with
    ⟨e, claims, hdeclare, hkeeps⟩ | ⟨index, claims, hindex, hdeclare, hkeeps, hclaimed⟩
  · rw [hdeclare]
    exact ⟨grows_claims hkeeps, nofun⟩
  · have hgains := gains_declare hnew hmaker hindex hkeeps hclaimed
    rw [hdeclare]
    refine ⟨hgains.grows, fun found after h => ?_⟩
    obtain ⟨rfl, rfl⟩ := ok_inj h
    exact ⟨hgains.learns.known hnew, getElem?_push_ofNat? hindex, value_of_ofNat? hindex⟩

/-- A declaration is found, or registered and then completed. -/
theorem answers_declaredOr (hmaker : entry.HasMaker) {fill : TermIndex → Drafting TermIndex}
    (hfill : ∀ (base : Draft) index (draft : Draft), base.Grows draft →
      base.entries.size ≤ index.value → draft.known? (.declared typeName) = some index →
      draft.entries[index.value]? = some entry →
        base.Grows ((fill index).runOn draft).2 ∧
          ∀ found after, (fill index).runOn draft = (.ok found, after) →
            after.known? (.declared typeName) = some found) :
    Answers (.declared typeName)
      (.term <$> declaredOr typeName (declare typeName entry >>= fill)) := by
  intro draft
  rw [runOn_map, runOn_declaredOr]
  split
  · next index hlookup => exact answered_found hlookup
  · next hnew =>
    rw [runOn_bind]
    obtain ⟨hgrows, hok⟩ := grows_declare hnew hmaker
    rcases hdeclare : (declare typeName entry).runOn draft with ⟨e | index, middle⟩
    · rw [hdeclare] at hgrows
      exact answered_error hgrows e
    · rw [hdeclare] at hgrows
      obtain ⟨hknown, hentry, hindex⟩ := hok index middle hdeclare
      obtain ⟨hfilled, hfound⟩ :=
        hfill draft index middle hgrows (Nat.le_of_eq hindex.symm) hknown hentry
      simp only
      rcases hrun : (fill index).runOn middle with ⟨e | found, after⟩
      · rw [hrun] at hfilled
        exact answered_error hfilled e
      · rw [hrun] at hfilled
        exact ⟨hfilled, fun _ h => ⟨found, (Except.ok.inj h).symm, hfound found after hrun⟩⟩

/-- A terminal is complete as soon as it is registered. -/
theorem answers_declare (typeName : String) (hmaker : entry.HasMaker) :
    Answers (.declared typeName) (.term <$> declaredOr typeName (declare typeName entry)) := by
  have hpure : declare typeName entry = declare typeName entry >>= pure := (bind_pure _).symm
  rw [hpure]
  refine answers_declaredOr hmaker fun base index draft hgrows _ hknown _ => ⟨hgrows, ?_⟩
  intro found after h
  obtain ⟨rfl, rfl⟩ := ok_inj h
  exact hknown

/-- A choice is completed once its key terms are registered. -/
theorem answers_choice (type : TypeDeclaration) (hrule : type.entry.kind = .rule none) :
    Answers (.declared type.typeName)
      (.term <$> declaredOr type.typeName
        (declare type.typeName type.entry >>= fillChoice type)) := by
  have hmaker : type.entry.HasMaker := Entry.hasMaker_of_kind hrule
  refine answers_declaredOr hmaker fun base index draft hgrows hlater hknown hentry => ?_
  have hkeys := follows_mapM follows_key type.requests draft
  unfold fillChoice
  rw [runOn_bind]
  rcases hrun : (type.requests.mapM key).runOn draft with ⟨e | keys, middle⟩
  · rw [hrun] at hkeys
    exact ⟨hgrows.trans hkeys, nofun⟩
  · rw [hrun] at hkeys
    simp only
    rw [runOn_bind, runOn_setShape]
    simp only [runOn_pure]
    refine ⟨(hgrows.trans hkeys).withShape hlater (hkeys.entries _ _ hentry) hrule, ?_⟩
    intro found after h
    obtain ⟨rfl, rfl⟩ := ok_inj h
    exact hkeys.known _ _ hknown

end Drafting

/-! ## Calls -/

namespace Call

/-- What a call asks for, if there is one term at most for it. -/
def request? : Call → Option Request
  | identifier type => some (.declared type.typeName)
  | literal type => some (.declared type.typeName)
  | constant type => some (.declared type.typeName)
  | operator type => some (.declared type.typeName)
  | key request => some (.key request.name)
  | braces opening inside closing omissible => some (.braces ⟨opening, inside, closing, omissible⟩)
  | optional shape => some (.optional shape)
  | list element shape delimiter bounds => some (.list ⟨element, shape, delimiter, bounds⟩)
  | withoutNode _ => none
  | custom _ _ _ => none

/-- A call that asks for something is answered, or fails. -/
theorem answers {call : Call} {request : Request} (h : call.request? = some request) :
    Drafting.Answers request call.run := by
  cases call with
  | identifier type =>
    obtain rfl := Option.some.inj h
    exact Drafting.answers_declare _ fun _ => rfl
  | literal type =>
    obtain rfl := Option.some.inj h
    exact Drafting.answers_declare _ fun _ => rfl
  | constant type =>
    obtain rfl := Option.some.inj h
    show Drafting.Answers _ (.term <$> Drafting.constant type)
    rw [Drafting.constant_eq]
    exact Drafting.answers_choice (.constant type) rfl
  | operator type =>
    obtain rfl := Option.some.inj h
    show Drafting.Answers _ (.term <$> Drafting.operator type)
    rw [Drafting.operator_eq]
    exact Drafting.answers_choice (.operator type) rfl
  | key request =>
    obtain rfl := Option.some.inj h
    exact Drafting.answers_key request
  | braces opening inside closing omissible =>
    obtain rfl := Option.some.inj h
    exact Drafting.answers_braces _ _ _ _
  | optional shape =>
    obtain rfl := Option.some.inj h
    exact Drafting.answers_optional shape
  | list element shape delimiter bounds =>
    obtain rfl := Option.some.inj h
    exact Drafting.answers_list _ _ _ _
  | withoutNode shape => cases h
  | custom name shape maker => cases h

/-- **Growth.**  Every call lets the draft grow, also one that fails. -/
theorem follows_grows (call : Call) : call.run.Follows Draft.Grows := by
  cases hrequest : call.request? with
  | some request => exact (answers hrequest).follows
  | none =>
    cases call with
    | withoutNode shape => exact Drafting.follows_withoutNode shape
    | custom name shape maker => exact Drafting.follows_custom name shape maker
    | _ => cases hrequest

end Call

end TypedGrammar
