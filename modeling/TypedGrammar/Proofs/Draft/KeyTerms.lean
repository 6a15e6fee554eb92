import TypedGrammar.Proofs.Draft.Runs

/-!
# Key terms and their entries

What a draft knows of a key term stands in two places: in the table of key terms, where it was noted
when the key term was registered, and in the entry of its term.  A call adds to both alike, and only
what it asks for.
-/

namespace TypedGrammar

namespace KeyTermTable

variable {table : KeyTermTable} {key found : KeyTerm} {name : String}

/-- A key term that is added is the only new one. -/
theorem mem_push : found ∈ (table.push key).records ↔ found ∈ table.records ∨ found = key :=
  Array.mem_push

/-- What is found in the table is in it. -/
theorem mem_of_get? (h : table.get? name = some key) : key ∈ table.records := by
  rw [get?_eq_find?] at h
  exact Array.mem_of_find?_eq_some h

end KeyTermTable

namespace Draft

variable {asks : List KeyRequest} {old new later draft base : Draft} {index : TermIndex}
  {entry : Entry} {request : KeyRequest} {key : KeyTerm} {shape : Shape}

/-- The key term came into the table between two drafts, for a request that was made first under its
name, and with an entry that is what the request asks for. -/
structure Adds (asks : List KeyRequest) (old new : Draft) (key : KeyTerm) : Prop where
  asked : key.toKeyRequest ∈ asks
  unknown : old.keyTerms.get? key.name = none
  found : new.keyTerms.get? key.name = some key
  later : old.entries.size ≤ key.term.value
  entry : new.entries[key.term.value]? = some key.toKeyRequest.entry

/-- **What is added.**  Entries and key terms stay as they are; what comes to them are key terms
that were asked for, each in the table and as an entry, and entries of other kinds. -/
structure AddsKeys (asks : List KeyRequest) (old new : Draft) : Prop where
  size_le : old.entries.size ≤ new.entries.size
  entries : ∀ (n : ℕ) (entry : Entry), old.entries[n]? = some entry → new.entries[n]? = some entry
  keys : old.KeepsKeys new
  kept : ∀ key ∈ old.keyTerms.records, key ∈ new.keyTerms.records
  added : ∀ key ∈ new.keyTerms.records, key ∈ old.keyTerms.records ∨ old.Adds asks new key
  terms : ∀ (n : ℕ) (entry : Entry) (text : String), new.entries[n]? = some entry →
    entry.kind = .key text → n < old.entries.size ∨ ∃ key ∈ new.keyTerms.records, key.term.value = n

/-- Entries that are no key terms may be added, and whatever else is noted. -/
theorem addsKeys_of_eq (hentries : new.entries = old.entries)
    (hkeys : new.keyTerms = old.keyTerms) : AddsKeys asks old new where
  size_le := Nat.le_of_eq (congrArg Array.size hentries.symm)
  entries n entry h := by rw [hentries, h]
  keys name key h := by rw [hkeys, h]
  kept key h := by rwa [hkeys]
  added key h := by
    rw [hkeys] at h
    exact Or.inl h
  terms n entry text h _ := by
    rw [hentries] at h
    exact Or.inl (Array.getElem?_eq_some_iff.mp h).1

/-- A draft adds no key terms to itself. -/
theorem AddsKeys.refl (draft : Draft) : AddsKeys asks draft draft :=
  addsKeys_of_eq rfl rfl

/-- What is added first and what is added then are added together. -/
theorem AddsKeys.trans (h : AddsKeys asks old new) (h' : AddsKeys asks new later) :
    AddsKeys asks old later where
  size_le := Nat.le_trans h.size_le h'.size_le
  entries n entry hentry := h'.entries n entry (h.entries n entry hentry)
  keys name key hkey := h'.keys name key (h.keys name key hkey)
  kept key hkey := h'.kept key (h.kept key hkey)
  added key hkey := by
    rcases h'.added key hkey with hkey | hadds
    · refine (h.added key hkey).imp id fun hadds => ?_
      exact { hadds with
        found := h'.keys _ _ hadds.found
        entry := h'.entries _ _ hadds.entry }
    · refine Or.inr { hadds with
        unknown := ?_
        later := Nat.le_trans h.size_le hadds.later }
      -- What is unknown later was unknown before.
      cases hold : old.keyTerms.get? key.name with
      | none => rfl
      | some other =>
        have hnew := h.keys _ _ hold
        rw [hadds.unknown] at hnew
        cases hnew
  terms n entry text hentry hkind := by
    rcases h'.terms n entry text hentry hkind with hlt | hkey
    · have hmiddle := h'.entries n _ (Array.getElem?_eq_getElem hlt)
      rw [hentry] at hmiddle
      obtain rfl := Option.some.inj hmiddle
      refine (h.terms n _ text (Array.getElem?_eq_getElem hlt) hkind).imp id ?_
      rintro ⟨key, hkey, hterm⟩
      exact ⟨key, h'.kept key hkey, hterm⟩
    · exact Or.inr hkey

instance : Std.Refl (AddsKeys asks) :=
  ⟨AddsKeys.refl⟩

instance : IsTrans Draft (AddsKeys asks) :=
  ⟨fun _ _ _ => AddsKeys.trans⟩

/-- An entry that is no key term may be added. -/
theorem addsKeys_push (hentries : new.entries = old.entries.push entry)
    (hkeys : new.keyTerms = old.keyTerms) (hkind : ∀ text, entry.kind ≠ .key text) :
    AddsKeys asks old new where
  size_le := by
    rw [hentries, Array.size_push]
    exact Nat.le_succ _
  entries n found h := by rw [hentries, getElem?_push_of_some h]
  keys name key h := by rw [hkeys, h]
  kept key h := by rwa [hkeys]
  added key h := by
    rw [hkeys] at h
    exact Or.inl h
  terms n found text h hfound := by
    rw [hentries, Array.getElem?_push] at h
    split at h
    · rw [← Option.some.inj h] at hfound
      exact absurd hfound (hkind text)
    · exact Or.inl (Array.getElem?_eq_some_iff.mp h).1

/-- A key term that is new is added together with its entry. -/
theorem addsKeys_key (hasks : request ∈ asks) (hnew : draft.keyTerms.get? request.name = none)
    (hindex : TermIndex.ofNat? draft.entries.size = some index) :
    AddsKeys asks draft { draft.pushEntry request.entry with
      keyTerms := draft.keyTerms.push { request with term := index } } where
  size_le := by
    show draft.entries.size ≤ (draft.entries.push _).size
    rw [Array.size_push]
    exact Nat.le_succ _
  entries n found h := getElem?_push_of_some h
  keys name key h := by rw [KeyTermTable.get?_push, h, Option.some_or]
  kept key h := KeyTermTable.mem_push.mpr (Or.inl h)
  added key h := by
    rcases KeyTermTable.mem_push.mp h with hold | rfl
    · exact Or.inl hold
    · refine Or.inr ⟨hasks, hnew, ?_, ?_, getElem?_push_ofNat? hindex⟩
      · rw [KeyTermTable.get?_push, hnew, Option.none_or, if_pos rfl]
      · exact Nat.le_of_eq (Drafting.value_of_ofNat? hindex).symm
  terms n found text h _ := by
    have hlt := (Array.getElem?_eq_some_iff.mp h).1
    rw [pushEntry, Array.size_push] at hlt
    rcases Nat.lt_succ_iff_lt_or_eq.mp hlt with hlt | rfl
    · exact Or.inl hlt
    · exact Or.inr ⟨_, KeyTermTable.mem_push.mpr (Or.inr rfl), Drafting.value_of_ofNat? hindex⟩

/-- A rule that came into the draft later may still get its shape. -/
theorem AddsKeys.withShape (h : AddsKeys asks base draft) (hlater : base.entries.size ≤ index.value)
    (hentry : draft.entries[index.value]? = some entry) (hpending : entry.kind = .rule none) :
    AddsKeys asks base (draft.modifyTerm index (·.withShape shape)) where
  size_le := by
    rw [modifyTerm, Array.size_modify]
    exact h.size_le
  entries n found hfound := by
    have hlt : n < base.entries.size := (Array.getElem?_eq_some_iff.mp hfound).1
    rw [getElem?_withShape_of_ne (by omega)]
    exact h.entries n found hfound
  keys := h.keys
  kept := h.kept
  added key hkey := by
    refine (h.added key hkey).imp id fun hadds => { hadds with entry := ?_ }
    exact (getElem?_withShape_key hentry hpending rfl).mpr hadds.entry
  terms n found text hfound hkind :=
    h.terms n found text ((getElem?_withShape_key hentry hpending hkind).mp hfound) hkind

end Draft

/-! ## Calls -/

namespace Drafting

open Draft

variable {asks : List KeyRequest} {request : KeyRequest} {draft : Draft} {entry : Entry}
  {typeName : String}

/-- A request adds its own key term at most. -/
theorem addsKeys_of_key (hasks : request ∈ asks) : (key request).Follows (AddsKeys asks) := by
  intro draft
  rw [runOn_key]
  split
  · exact .refl draft
  · exact .refl draft
  · next hlookup =>
    split
    · next index hindex => exact addsKeys_key hasks (KeyTermTable.lookup_eq_none hlookup) hindex
    · exact .refl draft

/-- Requests one after the other add their own key terms at most. -/
theorem addsKeys_mapM_key {requests : List KeyRequest} (h : ∀ request ∈ requests, request ∈ asks) :
    (requests.mapM key).Follows (AddsKeys asks) := by
  induction requests with
  | nil => exact follows_pure []
  | cons request rest ih =>
    obtain ⟨hfirst, hrest⟩ := List.forall_mem_cons.mp h
    rw [List.mapM_cons]
    exact follows_bind (addsKeys_of_key hfirst) fun index =>
      follows_bind (ih hrest) fun _ => follows_pure _

/-- Adding a rule adds no key terms. -/
theorem addsKeys_defineRule (name : String) (flags : Flags) (maker : Option Maker) (shape : Shape) :
    (defineRule name flags maker shape).Follows (AddsKeys asks) := by
  intro draft
  rw [runOn_defineRule]
  split
  · exact addsKeys_push rfl rfl nofun
  · exact .refl draft

/-- Noting a rule adds no key terms. -/
theorem addsKeys_noteRule {answered : Request} {note : TermIndex → Draft → Draft}
    (hnotes : Notes answered note) (name : String) (flags : Flags) (maker : Option Maker)
    (shape : Shape) :
    (noteRule name flags maker shape note).Follows (AddsKeys asks) := by
  intro draft
  rw [runOn_noteRule]
  split
  · exact addsKeys_push (hnotes.entries _ _) (hnotes.keyTerms _ _) nofun
  · exact .refl draft

/-- Grouping a shape adds no key terms. -/
theorem addsKeys_group (shape : Shape) : (group shape).Follows (AddsKeys asks) := by
  intro draft
  rw [runOn_group]
  split
  · exact .refl draft
  · split
    · exact .refl draft
    · exact addsKeys_noteRule (notes_group shape) _ _ _ _ draft

/-- An optional part adds no key terms. -/
theorem addsKeys_optional (shape : Shape) : (optional shape).Follows (AddsKeys asks) := by
  intro draft
  rw [runOn_optional]
  split
  · exact .refl draft
  · exact addsKeys_noteRule (notes_optional shape) _ _ _ _ draft

/-- A list adds no key terms. -/
theorem addsKeys_list (element : ValueType) (shape : Shape) (delimiter : Option Shape)
    (bounds : Bounds) : (list element shape delimiter bounds).Follows (AddsKeys asks) := by
  intro draft
  rw [runOn_list]
  split
  · exact .refl draft
  · have hgroup : AddsKeys asks draft ((group shape).runOn draft).2 := addsKeys_group shape draft
    rcases hrun : (group shape).runOn draft with ⟨e | item, middle⟩
    · rw [hrun] at hgroup
      exact hgroup
    · rw [hrun] at hgroup
      exact hgroup.trans (addsKeys_noteRule (notes_list _) _ _ _ _ middle)

/-- Braces between known symbols add no key terms. -/
theorem addsKeys_bracesBetween (openIndex closeIndex : TermIndex) (spec : BraceSpec) :
    (bracesBetween openIndex closeIndex spec).Follows (AddsKeys asks) :=
  follows_bind (addsKeys_group spec.inside) fun _ =>
    follows_bind follows_get fun _ => addsKeys_noteRule (notes_braces spec) _ _ _ _

/-- Braces add the key terms of their symbols at most. -/
theorem addsKeys_braces (opening : String) (inside : Shape) (closing : String) (omissible : Bool)
    (hopen : .ofText opening (.ofList [.openBrace]) ∈ asks)
    (hclose : .ofText closing (.ofList [.closeBrace]) ∈ asks) :
    (braces opening inside closing omissible).Follows (AddsKeys asks) := by
  intro draft
  rw [runOn_braces]
  split
  · exact .refl draft
  · refine follows_bind (addsKeys_of_key hopen) (fun openIndex => ?_) draft
    exact follows_bind (addsKeys_of_key hclose) fun closeIndex =>
      addsKeys_bracesBetween openIndex closeIndex _

/-- A declaration is found, or registered and then completed. -/
theorem addsKeys_declaredOr (hkind : ∀ text, entry.kind ≠ .key text)
    {fill : TermIndex → Drafting TermIndex}
    (hfill : ∀ (base : Draft) index (draft : Draft), AddsKeys asks base draft →
      base.entries.size ≤ index.value → draft.entries[index.value]? = some entry →
        AddsKeys asks base ((fill index).runOn draft).2) :
    (declaredOr typeName (declare typeName entry >>= fill)).Follows (AddsKeys asks) := by
  intro draft
  rw [runOn_declaredOr]
  split
  · exact .refl draft
  · rw [runOn_bind]
    rcases declare_cases typeName entry draft with
      ⟨e, claims, hdeclare, _⟩ | ⟨index, claims, hindex, hdeclare, _, _⟩
    · rw [hdeclare]
      exact addsKeys_of_eq rfl rfl
    · rw [hdeclare]
      refine hfill draft index _ (addsKeys_push rfl rfl hkind) ?_ (getElem?_push_ofNat? hindex)
      exact Nat.le_of_eq (value_of_ofNat? hindex).symm

/-- Declaring what is no key term adds none. -/
theorem addsKeys_declare (typeName : String) (hkind : ∀ text, entry.kind ≠ .key text) :
    (declaredOr typeName (declare typeName entry)).Follows (AddsKeys asks) := by
  have hpure : declare typeName entry = declare typeName entry >>= pure := (bind_pure _).symm
  rw [hpure]
  exact addsKeys_declaredOr hkind fun _ _ _ hadds _ _ => hadds

/-- A choice is completed once its key terms are registered. -/
theorem addsKeys_choice (type : TypeDeclaration) (hrule : type.entry.kind = .rule none) :
    (declaredOr type.typeName (declare type.typeName type.entry >>= fillChoice type)).Follows
      (AddsKeys type.requests) := by
  refine addsKeys_declaredOr (by simp [hrule]) fun base index draft hadds hlater hentry => ?_
  have hkeys : AddsKeys type.requests draft ((type.requests.mapM key).runOn draft).2 :=
    addsKeys_mapM_key (fun _ h => h) draft
  unfold fillChoice
  rw [runOn_bind]
  rcases hrun : (type.requests.mapM key).runOn draft with ⟨e | keys, middle⟩
  · rw [hrun] at hkeys
    exact hadds.trans hkeys
  · rw [hrun] at hkeys
    simp only
    rw [runOn_bind, runOn_setShape]
    exact (hadds.trans hkeys).withShape hlater (hkeys.entries _ _ hentry) hrule

end Drafting

namespace Call

/-- The key terms that a call asks for, on its own account or for its parts. -/
def keyRequests : Call → List KeyRequest
  | constant type => (TypeDeclaration.constant type).requests
  | operator type => (TypeDeclaration.operator type).requests
  | key request => [request]
  | braces opening _ closing _ =>
    [.ofText opening (.ofList [.openBrace]), .ofText closing (.ofList [.closeBrace])]
  | _ => []

/-- **Key terms of calls.**  A call adds the key terms that it asks for and that are not there yet,
also if it fails. -/
theorem follows_addsKeys (call : Call) : call.run.Follows (Draft.AddsKeys call.keyRequests) := by
  cases call with
  | identifier type => exact Drafting.follows_map (Drafting.addsKeys_declare _ nofun)
  | literal type => exact Drafting.follows_map (Drafting.addsKeys_declare _ nofun)
  | constant type =>
    show (Shape.term <$> Drafting.constant type).Follows _
    rw [Drafting.constant_eq]
    exact Drafting.follows_map (Drafting.addsKeys_choice (.constant type) rfl)
  | operator type =>
    show (Shape.term <$> Drafting.operator type).Follows _
    rw [Drafting.operator_eq]
    exact Drafting.follows_map (Drafting.addsKeys_choice (.operator type) rfl)
  | key request => exact Drafting.follows_map (Drafting.addsKeys_of_key List.mem_cons_self)
  | braces opening inside closing omissible =>
    exact Drafting.addsKeys_braces _ _ _ _ List.mem_cons_self
      (List.mem_cons_of_mem _ List.mem_cons_self)
  | optional shape => exact Drafting.addsKeys_optional shape
  | list element shape delimiter bounds => exact Drafting.addsKeys_list _ _ _ _
  | withoutNode shape =>
    exact Drafting.follows_bind Drafting.follows_get fun _ =>
      Drafting.follows_map (Drafting.addsKeys_defineRule _ _ _ _)
  | custom name shape maker => exact Drafting.follows_map (Drafting.addsKeys_defineRule _ _ _ _)

end Call

/-! ## Steps -/

namespace Session

variable {before after : Session} {events : List Event}

/-- **Key terms of steps.**  A step that is not a call sets flags, or gives a rule its shape, or
adds nothing except perhaps an entry that is no key term. -/
theorem Step.keyTerms_cases (h : Step before events after) :
    (∃ (call : Call) (result : Except Error Shape) (frames : List Frame),
      before.frames = frames ∧ after.frames = frames ∧ events = call.events result ∧
        call.run.runOn before.draft = (result, after.draft)) ∨
    after.draft.keyTerms = before.draft.keyTerms ∧
      ((∃ index flags on, events = [.flagged index flags on] ∧
          index.value < before.draft.entries.size ∧ after.draft = before.draft.modifyTerm index
            fun term => { term with flags := term.flags.assign flags on }) ∨
        (∃ frame ∈ before.frames, frame.stored = false ∧ events = [] ∧
          ∃ shape, after.draft = before.draft.modifyTerm frame.index (·.withShape shape)) ∨
        (∀ index flags on, .flagged index flags on ∉ events) ∧
          Draft.AddsKeys [] before.draft after.draft) := by
  cases h with
  | call call hrun => exact .inl ⟨call, _, _, rfl, rfl, rfl, hrun⟩
  | @setFlags draft _ _ index flags on hrun =>
    rw [Drafting.runOn_setFlags] at hrun
    split at hrun
    · cases hrun
    · next hterm =>
      obtain ⟨_, rfl⟩ := Drafting.ok_inj hrun
      refine .inr ⟨rfl, .inl ⟨index, flags, on, rfl, ?_, rfl⟩⟩
      by_contra hge
      rw [Nat.not_lt] at hge
      exact hterm (by simp [Draft.term?, Draft.entry?, Array.getElem?_eq_none hge])
  | flagsRefused hrun =>
    rw [Drafting.runOn_setFlags] at hrun
    split at hrun
    · obtain ⟨_, rfl⟩ := Prod.mk.inj hrun
      exact .inr ⟨rfl, .inr (.inr ⟨by simp, .refl _⟩)⟩
    · cases hrun
  | @refused draft _ _ type _ _ hrun =>
    rcases Drafting.declare_cases type.typeName type.pending draft with
      ⟨_, claims, hdeclare, _⟩ | ⟨index, claims, _, hdeclare, _, _⟩
    · obtain ⟨_, rfl⟩ := Prod.mk.inj (hdeclare.symm.trans hrun)
      exact .inr ⟨rfl, .inr (.inr ⟨by simp, Draft.addsKeys_of_eq rfl rfl⟩)⟩
    · cases hdeclare.symm.trans hrun
  | @enter draft _ _ type index _ hrun =>
    rcases Drafting.declare_cases type.typeName type.pending draft with
      ⟨_, claims, hdeclare, _⟩ | ⟨index, claims, _, hdeclare, _, _⟩
    · cases hdeclare.symm.trans hrun
    · obtain ⟨_, rfl⟩ := Prod.mk.inj (hdeclare.symm.trans hrun)
      exact .inr ⟨rfl, .inr (.inr ⟨by simp, Draft.addsKeys_push rfl rfl nofun⟩)⟩
  | store shape => exact .inr ⟨rfl, .inr (.inl ⟨_, List.mem_cons_self, rfl, rfl, shape, rfl⟩)⟩
  | found | finish | abandon => exact .inr ⟨rfl, .inr (.inr ⟨by simp, .refl _⟩)⟩

end Session

end TypedGrammar
