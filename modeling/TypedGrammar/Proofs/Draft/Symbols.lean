import TypedGrammar.Proofs.Draft.Interning
import TypedGrammar.Proofs.Draft.KeyTermCopies

/-!
# Symbols of braces

When a brace is asked for first, its symbols are registered under their texts, as what opens and
closes a brace.  So after every run the terms of the symbols have these texts, whatever flags were
set meanwhile.
-/

namespace TypedGrammar

namespace Draft

variable {draft old new : Draft} {spec : BraceSpec} {index : TermIndex}

/-- The symbols of a brace are registered. -/
def HasSymbols (draft : Draft) (spec : BraceSpec) : Prop :=
  draft.HasKey (.ofText spec.opening (.ofList [.openBrace])) ∧
    draft.HasKey (.ofText spec.closing (.ofList [.closeBrace]))

theorem HasSymbols.mono (h : old.HasSymbols spec) (hkeys : old.KeepsKeys new) :
    new.HasSymbols spec :=
  ⟨h.1.mono hkeys, h.2.mono hkeys⟩

/-- No brace is noted. -/
def SameBraces (old new : Draft) : Prop :=
  new.braces = old.braces

instance : Std.Refl SameBraces :=
  ⟨fun _ => rfl⟩

instance : IsTrans Draft SameBraces :=
  ⟨fun _ _ _ h h' => Eq.trans h' h⟩

/-- Braces are known only if they were known before. -/
theorem SameBraces.known (h : SameBraces old new)
    (hknown : new.known? (.braces spec) = some index) :
    old.known? (.braces spec) = some index := by
  have hlookup : new.braces.lookup spec = some index := hknown
  rwa [show new.braces = old.braces from h] at hlookup

/-- A key term that agrees with a request named after its text has a term with this text. -/
theorem TracksKeys.term_of_hasKey {events : List Event} {text : String} {flags : Flags}
    (h : TracksKeys events draft) (hkey : draft.HasKey (.ofText text flags))
    (hknown : draft.known? (.key text) = some index) :
    ∃ term, draft.term? index = some term ∧ term.kind = .key text := by
  obtain ⟨key, hget, hagrees⟩ := hkey
  have hterm : (draft.keyTerms.get? text).map (·.term) = some index := hknown
  rw [show draft.keyTerms.get? text = some key from hget] at hterm
  obtain rfl := Option.some.inj hterm
  obtain ⟨term, hterm, _, hkind, _⟩ := h.exists_term (KeyTermTable.mem_of_get? hget)
  refine ⟨term, hterm, ?_⟩
  rw [hkind, (KeyTerm.agrees_iff.mp hagrees).text]
  rfl

end Draft

namespace Drafting

open Draft

variable {draft : Draft} {entry : Entry} {typeName : String}

/-- Requesting a key term adds no braces. -/
theorem sameBraces_key (request : KeyRequest) : (key request).Follows SameBraces :=
  braces_key request

/-- Adding a rule adds no braces. -/
theorem sameBraces_defineRule (name : String) (flags : Flags) (maker : Option Maker)
    (shape : Shape) : (defineRule name flags maker shape).Follows SameBraces := by
  intro draft
  rw [runOn_defineRule]
  split <;> rfl

theorem sameBraces_optional (shape : Shape) : (optional shape).Follows SameBraces := by
  intro draft
  rw [runOn_optional]
  split
  · rfl
  · rw [runOn_noteRule]
    split <;> rfl

theorem sameBraces_list (element : ValueType) (shape : Shape) (delimiter : Option Shape)
    (bounds : Bounds) : (list element shape delimiter bounds).Follows SameBraces := by
  intro draft
  rw [runOn_list]
  split
  · rfl
  · have hgroup := (tables_group shape draft).2
    rcases hrun : (group shape).runOn draft with ⟨e | item, middle⟩
    · rw [hrun] at hgroup
      exact hgroup
    · rw [hrun] at hgroup
      simp only
      rw [runOn_noteRule]
      split <;> exact hgroup

/-- A declaration adds no braces. -/
theorem sameBraces_declare (typeName : String) (entry : Entry) :
    (declare typeName entry).Follows SameBraces := by
  intro draft
  rcases declare_cases typeName entry draft with ⟨_, _, hdeclare, _⟩ | ⟨_, _, _, hdeclare, _, _⟩
  · rw [hdeclare]
    rfl
  · rw [hdeclare]
    rfl

theorem sameBraces_declaredOr {make : Drafting TermIndex} (hmake : make.Follows SameBraces) :
    (declaredOr typeName make).Follows SameBraces := by
  intro draft
  rw [runOn_declaredOr]
  split
  · rfl
  · exact hmake draft

/-- Declaring a choice between key terms adds no braces. -/
theorem sameBraces_choice (type : TypeDeclaration) :
    (declaredOr type.typeName (declare type.typeName type.entry >>= fillChoice type)).Follows
      SameBraces := by
  refine sameBraces_declaredOr (follows_bind (sameBraces_declare _ _) fun index => ?_)
  refine follows_bind (follows_mapM sameBraces_key _) fun keys => ?_
  refine follows_bind (fun draft => ?_) fun _ => follows_pure _
  rw [runOn_setShape]
  rfl

/-- What is put between symbols is noted as the brace that was asked for. -/
theorem known_of_bracesBetween {openIndex closeIndex index : TermIndex} {asked spec : BraceSpec}
    {result : Except Error Shape} {after : Draft}
    (h : (bracesBetween openIndex closeIndex asked).runOn draft = (result, after))
    (hknown : after.known? (.braces spec) = some index) :
    draft.known? (.braces spec) = some index ∨ spec = asked ∧ draft.KeepsKeys after := by
  obtain ⟨hgrows, _⟩ := grows_group asked.inside draft
  have hsame : SameBraces draft ((group asked.inside).runOn draft).2 :=
    (tables_group asked.inside draft).2
  rw [bracesBetween, runOn_bind] at h
  rcases hgroup : (group asked.inside).runOn draft with ⟨e | item, middle⟩
  all_goals rw [hgroup] at h hgrows hsame
  · obtain ⟨_, rfl⟩ := Prod.mk.inj h
    exact Or.inl (hsame.known hknown)
  · simp only at h
    rw [runOn_bind, runOn_get] at h
    simp only at h
    rw [runOn_noteRule] at h
    split at h
    · obtain ⟨_, rfl⟩ := Prod.mk.inj h
      have hlookup : List.lookup spec ((asked, _) :: middle.braces) = some index := hknown
      rw [List.lookup_cons] at hlookup
      split at hlookup
      · next heq => exact Or.inr ⟨beq_iff_eq.mp heq, hgrows.keys⟩
      · exact Or.inl (hsame.known hlookup)
    · obtain ⟨_, rfl⟩ := Prod.mk.inj h
      exact Or.inl (hsame.known hknown)

/-- A brace that is known was known before, or its symbols are registered now. -/
theorem hasSymbols_of_braces {opening closing : String} {inside : Shape} {omissible : Bool}
    {result : Except Error Shape} {after : Draft} {spec : BraceSpec} {index : TermIndex}
    (h : (braces opening inside closing omissible).runOn draft = (result, after))
    (hknown : after.known? (.braces spec) = some index) :
    draft.known? (.braces spec) = some index ∨ after.HasSymbols spec := by
  rw [runOn_braces] at h
  split at h
  · obtain ⟨_, rfl⟩ := Prod.mk.inj h
    exact Or.inl hknown
  obtain ⟨first, opened, hopen, _, hsameOpen, hopened⟩ :=
    textKey_cases opening (.ofList [.openBrace]) draft
  rw [runOn_bind, hopen] at h
  cases first with
  | error e =>
    obtain ⟨_, rfl⟩ := Prod.mk.inj h
    exact Or.inl (SameBraces.known hsameOpen hknown)
  | ok openIndex =>
    obtain ⟨_, hopenKey⟩ := hopened openIndex rfl
    obtain ⟨second, closed, hclose, hgrowsClose, hsameClose, hclosed⟩ :=
      textKey_cases closing (.ofList [.closeBrace]) opened
    have hsame : SameBraces draft closed := hsameClose.trans hsameOpen
    simp only at h
    rw [runOn_bind, hclose] at h
    cases second with
    | error e =>
      obtain ⟨_, rfl⟩ := Prod.mk.inj h
      exact Or.inl (hsame.known hknown)
    | ok closeIndex =>
      obtain ⟨_, hcloseKey⟩ := hclosed closeIndex rfl
      rcases known_of_bracesBetween h hknown with hbefore | ⟨rfl, hkeys⟩
      · exact Or.inl (hsame.known hbefore)
      · have hsymbols : closed.HasSymbols ⟨opening, inside, closing, omissible⟩ :=
          ⟨hopenKey.mono hgrowsClose.keys, hcloseKey⟩
        exact Or.inr (hsymbols.mono hkeys)

end Drafting

open Draft in
/-- A call that asks for no brace notes none. -/
theorem Call.sameBraces {call : Call}
    (h : ∀ opening inside closing omissible, call ≠ .braces opening inside closing omissible) :
    call.run.Follows SameBraces := by
  cases call with
  | identifier type | literal type =>
    exact Drafting.follows_map (Drafting.sameBraces_declaredOr (Drafting.sameBraces_declare _ _))
  | constant type =>
    show (Shape.term <$> Drafting.constant type).Follows _
    rw [Drafting.constant_eq]
    exact Drafting.follows_map (Drafting.sameBraces_choice (.constant type))
  | operator type =>
    show (Shape.term <$> Drafting.operator type).Follows _
    rw [Drafting.operator_eq]
    exact Drafting.follows_map (Drafting.sameBraces_choice (.operator type))
  | key request => exact Drafting.follows_map (Drafting.sameBraces_key request)
  | braces opening inside closing omissible => exact absurd rfl (h _ _ _ _)
  | optional shape => exact Drafting.sameBraces_optional shape
  | list element shape delimiter bounds => exact Drafting.sameBraces_list _ _ _ _
  | withoutNode shape =>
    exact Drafting.follows_bind Drafting.follows_get fun _ =>
      Drafting.follows_map (Drafting.sameBraces_defineRule _ _ _ _)
  | custom name shape maker => exact Drafting.follows_map (Drafting.sameBraces_defineRule _ _ _ _)

namespace Session

variable {session before after : Session} {events : List Event} {spec : BraceSpec}
  {index : TermIndex}

/-- A step notes no brace, unless its symbols are registered. -/
theorem Step.hasSymbols (h : Step before events after)
    (hknown : after.draft.known? (.braces spec) = some index) :
    before.draft.known? (.braces spec) = some index ∨ after.draft.HasSymbols spec := by
  cases h with
  | @call draft _ _ _ call h =>
    by_cases hbraces : ∃ opening inside closing omissible,
        call = .braces opening inside closing omissible
    · obtain ⟨_, _, _, _, rfl⟩ := hbraces
      exact Drafting.hasSymbols_of_braces h hknown
    · have hfollows := Call.sameBraces (fun _ _ _ _ heq => hbraces ⟨_, _, _, _, heq⟩) draft
      rw [h] at hfollows
      exact Or.inl (hfollows.known hknown)
  | setFlags h | flagsRefused h =>
    rw [Drafting.runOn_setFlags] at h
    split at h <;> obtain ⟨_, rfl⟩ := Prod.mk.inj h <;> exact Or.inl hknown
  | @refused draft _ _ type _ _ h | @enter draft _ _ type _ _ h =>
    have hfollows := Drafting.sameBraces_declare type.typeName type.pending draft
    rw [h] at hfollows
    exact Or.inl (hfollows.known hknown)
  | store | found | finish | abandon => exact Or.inl hknown

/-- After every run, the symbols of all braces that are known are registered. -/
theorem Run.hasSymbols (h : Run start events session)
    (hknown : session.draft.known? (.braces spec) = some index) :
    session.draft.HasSymbols spec := by
  induction h generalizing index with
  | refl =>
    rw [start, Draft.known?_empty] at hknown
    cases hknown
  | step _ hstep ih =>
    rcases hstep.hasSymbols hknown with hbefore | hsymbols
    · exact (ih hbefore).mono hstep.run.keepsKeys
    · exact hsymbols

end Session

end TypedGrammar
