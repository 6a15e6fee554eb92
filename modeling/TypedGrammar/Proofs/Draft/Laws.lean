import Mathlib.Data.List.Basic
import TypedGrammar.Grammar.Basic

/-!
# Laws of drafting

What a step of drafting does to a draft: its result, and the draft after it, which outlives a
failure.  Each way to put steps together has an equation, and so has each of the steps by which
entries and key terms come into a draft.  A relation between drafts that is reflexive and transitive
is kept by steps that are put together from steps that keep it.
-/

namespace TypedGrammar

/-! ## Drafts -/

namespace Draft

variable {draft : Draft} {index : TermIndex}

/-- To change the last entry is to add another one. -/
theorem modifyTerm_pushEntry (entry : Entry) (change : Term → Term)
    (h : index.value = draft.entries.size) :
    (draft.pushEntry entry).modifyTerm index change =
      draft.pushEntry { entry with toTerm := change entry.toTerm } := by
  unfold modifyTerm pushEntry
  congr 1
  simp only
  rw [h]
  refine Array.ext (by simp) fun n hn _ => ?_
  rw [Array.getElem_modify, Array.getElem_push, Array.getElem_push]
  by_cases hlast : n = draft.entries.size
  · subst hlast
    simp
  · have hlt : n < draft.entries.size := by
      rw [Array.size_modify, Array.size_push] at hn
      omega
    simp [hlt, Ne.symm hlast]

end Draft

namespace Drafting

variable {α β : Type} {draft : Draft} {index : TermIndex}

/-! ## Steps in general -/

@[simp] theorem runOn_pure (a : α) (draft : Draft) :
    (pure a : Drafting α).runOn draft = (.ok a, draft) :=
  rfl

@[simp] theorem runOn_throw (e : Error) (draft : Draft) :
    (throw e : Drafting α).runOn draft = (.error e, draft) :=
  rfl

@[simp] theorem runOn_get (draft : Draft) :
    (get : Drafting Draft).runOn draft = (.ok draft, draft) :=
  rfl

@[simp] theorem runOn_modify (change : Draft → Draft) (draft : Draft) :
    (modify change : Drafting Unit).runOn draft = (.ok (), change draft) :=
  rfl

/-- One step after the other: the second goes on where the first ended, unless that failed. -/
@[simp] theorem runOn_bind (p : Drafting α) (f : α → Drafting β) (draft : Draft) :
    (p >>= f).runOn draft =
      match p.runOn draft with
      | (.ok a, after) => (f a).runOn after
      | (.error e, after) => (.error e, after) := by
  show StateT.run (ExceptT.run p >>= ExceptT.bindCont f) draft = _
  rw [StateT.run_bind]
  unfold runOn
  show (match StateT.run (ExceptT.run p) draft with
    | (a, after) => StateT.run (ExceptT.bindCont f a) after) = _
  rcases StateT.run (ExceptT.run p) draft with ⟨_ | a, after⟩ <;> rfl

@[simp] theorem runOn_map (f : α → β) (p : Drafting α) (draft : Draft) :
    (f <$> p).runOn draft = ((p.runOn draft).1.map f, (p.runOn draft).2) := by
  unfold runOn
  rw [ExceptT.run_map, StateT.run_map]
  rfl

/-- What catches a failure goes on with the draft that the failure left. -/
@[simp] theorem runOn_tryCatch (p : Drafting α) (f : Error → Drafting α) (draft : Draft) :
    (tryCatch p f : Drafting α).runOn draft =
      match p.runOn draft with
      | (.ok a, after) => (.ok a, after)
      | (.error e, after) => (f e).runOn after := by
  unfold runOn
  rw [ExceptT.run_tryCatch, StateT.run_bind]
  show (match StateT.run (ExceptT.run p) draft with | (a, after) => _) = _
  rcases StateT.run (ExceptT.run p) draft with ⟨_ | a, after⟩ <;> rfl

@[simp] theorem runOn_ofExcept (result : Except Error α) (draft : Draft) :
    (MonadExcept.ofExcept result : Drafting α).runOn draft = (result, draft) := by
  cases result <;> rfl

/-- A run that succeeded has one result and one draft after it. -/
theorem ok_inj {a b : α} {draft after : Draft}
    (h : (Except.ok a, draft) = ((.ok b, after) : Except Error α × Draft)) :
    a = b ∧ draft = after := by
  obtain ⟨hresult, hdraft⟩ := Prod.mk.inj h
  exact ⟨Except.ok.inj hresult, hdraft⟩

/-- A run of two steps that succeeded consists of two such runs. -/
theorem bind_ok {p : Drafting α} {f : α → Drafting β} {b : β} {after : Draft}
    (h : (p >>= f).runOn draft = (.ok b, after)) :
    ∃ a middle, p.runOn draft = (.ok a, middle) ∧ (f a).runOn middle = (.ok b, after) := by
  rw [runOn_bind] at h
  rcases hp : p.runOn draft with ⟨_ | a, middle⟩
  · rw [hp] at h
    cases h
  · rw [hp] at h
    exact ⟨a, middle, rfl, h⟩

/-! ## Entries -/

@[simp] theorem runOn_push (entry : Entry) (draft : Draft) :
    (push entry).runOn draft =
      match TermIndex.ofNat? draft.entries.size with
      | some index => (.ok index, draft.pushEntry entry)
      | none => (.error (.rule entry.name s!"grammar exceeds {termLimit} terms"), draft) := by
  unfold push
  rw [runOn_bind, runOn_get]
  simp only
  cases TermIndex.ofNat? draft.entries.size <;> rfl

@[simp] theorem runOn_setShape (index : TermIndex) (shape : Shape) (draft : Draft) :
    (setShape index shape).runOn draft = (.ok (), draft.modifyTerm index (·.withShape shape)) :=
  rfl

/-- A term is told by its number. -/
theorem eq_of_value {i j : TermIndex} (h : i.value = j.value) : i = j := by
  obtain ⟨n, hn⟩ := i
  obtain ⟨m, hm⟩ := j
  simp only at h
  subst h
  rfl

/-- The number of a term is the number that it is made from. -/
theorem value_of_ofNat? {n : ℕ} (h : TermIndex.ofNat? n = some index) : index.value = n := by
  unfold TermIndex.ofNat? at h
  split at h
  · exact (congrArg TermIndex.value (Option.some.inj h)).symm
  · cases h

/-- A rule with its shape is one entry. -/
@[simp] theorem runOn_defineRule (name : String) (flags : Flags) (maker : Option Maker)
    (shape : Shape) (draft : Draft) :
    (defineRule name flags maker shape).runOn draft =
      match TermIndex.ofNat? draft.entries.size with
      | some index =>
        (.ok index, draft.pushEntry { name, kind := .rule (some shape), flags, maker })
      | none => (.error (.rule name s!"grammar exceeds {termLimit} terms"), draft) := by
  unfold defineRule
  rw [runOn_bind, runOn_push]
  cases hindex : TermIndex.ofNat? draft.entries.size with
  | none => rfl
  | some index =>
    simp only
    rw [runOn_bind, runOn_setShape]
    simp only [runOn_pure]
    rw [Draft.modifyTerm_pushEntry _ _ (value_of_ofNat? hindex)]
    rfl

@[simp] theorem runOn_setFlags (index : TermIndex) (flags : Flags) (on : Bool) (draft : Draft) :
    (setFlags index flags on).runOn draft =
      if (draft.term? index).isNone then (.error (notRegistered index), draft)
      else (.ok (), draft.modifyTerm index fun term =>
        { term with flags := term.flags.assign flags on }) := by
  unfold setFlags
  rw [runOn_bind, runOn_get]
  simp only
  split <;> rfl

/-! ## Declarations -/

/-- Names that were claimed remain so. -/
def KeepsClaims (old new : List (String × String)) : Prop :=
  ∀ name owner, old.lookup name = some owner → new.lookup name = some owner

/-- To claim a name looks at nothing but the claims, and changes nothing else; if it succeeds, the
name is claimed. -/
theorem claim_cases (typeName name : String) (old : List (String × String)) :
    ∃ result claims, (∀ draft : Draft, draft.claims = old →
        (claim typeName name).runOn draft = (result, { draft with claims })) ∧
      KeepsClaims old claims ∧ (result = .ok () → claims.lookup name = some typeName) := by
  cases hlookup : old.lookup name with
  | some owner =>
    by_cases hsame : owner = typeName
    · subst hsame
      refine ⟨.ok (), old, ?_, fun _ _ h => h, fun _ => hlookup⟩
      rintro draft rfl
      unfold claim
      simp [hlookup]
    · refine ⟨.error (.registrationConflict name s!"type `{owner}`" s!"type `{typeName}`"), old, ?_,
        fun _ _ h => h, nofun⟩
      rintro draft rfl
      unfold claim
      simp [hlookup, hsame]
  | none =>
    refine ⟨.ok (), (name, typeName) :: old, ?_, fun other owner h => ?_, fun _ => ?_⟩
    · rintro draft rfl
      unfold claim
      simp [hlookup]
    · have hne : other ≠ name := by
        rintro rfl
        rw [hlookup] at h
        cases h
      rw [List.lookup_cons, beq_eq_false_iff_ne.mpr hne, h]
    · exact List.lookup_cons_self

/-- A declaration is either refused, or gets the next number and has claimed its name. -/
theorem declare_cases (typeName : String) (entry : Entry) (draft : Draft) :
    (∃ e claims, (declare typeName entry).runOn draft = (.error e, { draft with claims }) ∧
        KeepsClaims draft.claims claims) ∨
      ∃ index claims, TermIndex.ofNat? draft.entries.size = some index ∧
        (declare typeName entry).runOn draft =
          (.ok index, { draft.pushEntry entry with
            claims, declared := (typeName, index) :: draft.declared }) ∧
        KeepsClaims draft.claims claims ∧ claims.lookup entry.name = some typeName := by
  obtain ⟨result, claims, hclaim, hkeeps, hclaimed⟩ := claim_cases typeName entry.name draft.claims
  unfold declare
  rw [runOn_bind, hclaim draft rfl]
  cases result with
  | error e => exact Or.inl ⟨e, claims, rfl, hkeeps⟩
  | ok _ =>
    simp only
    rw [runOn_bind, runOn_push]
    simp only
    cases TermIndex.ofNat? draft.entries.size with
    | none => exact Or.inl ⟨_, claims, rfl, hkeeps⟩
    | some index => exact Or.inr ⟨index, claims, rfl, rfl, hkeeps, hclaimed rfl⟩

/-- A declaration that is registered keeps its term; otherwise its term is made. -/
@[simp] theorem runOn_declaredOr (typeName : String) (make : Drafting TermIndex) (draft : Draft) :
    (declaredOr typeName make).runOn draft =
      match draft.declared.lookup typeName with
      | some index => (.ok index, draft)
      | none => make.runOn draft := by
  unfold declaredOr declared?
  rw [runOn_bind, runOn_bind, runOn_get]
  simp only [runOn_pure]
  cases draft.declared.lookup typeName <;> rfl

end Drafting

namespace Draft

variable {entries : Array Entry} {entry last : Entry}

/-- An entry at the end leaves the others where they are. -/
theorem getElem?_push_of_some {n : ℕ} (h : entries[n]? = some entry) :
    (entries.push last)[n]? = some entry := by
  have hlt : n < entries.size := (Array.getElem?_eq_some_iff.mp h).1
  rw [Array.getElem?_push_lt hlt, ← h, Array.getElem?_eq_getElem hlt]

/-- The last entry has the next number. -/
theorem getElem?_push_ofNat? {index : TermIndex} (h : TermIndex.ofNat? entries.size = some index) :
    (entries.push entry)[index.value]? = some entry := by
  rw [Drafting.value_of_ofNat? h, Array.getElem?_push_size]

/-- There are no fewer entries where each of them has a successor with its number. -/
theorem size_le_of_entries {entries' : Array Entry}
    (h : ∀ (n : ℕ) (old : Entry), entries[n]? = some old → ∃ new, entries'[n]? = some new) :
    entries.size ≤ entries'.size := by
  by_contra hlt
  rw [Nat.not_le] at hlt
  obtain ⟨new, hnew⟩ := h _ _ (Array.getElem?_eq_getElem hlt)
  rw [Array.getElem?_eq_none (Nat.le_refl _)] at hnew
  cases hnew

end Draft

/-! ## Key terms -/

/-- The entry of a key term. -/
def KeyRequest.entry (request : KeyRequest) : Entry where
  name := request.name
  kind := .key request.text
  flags := request.flags
  precedence := request.precedence
  maker := some (.key request.value request.precedence)

namespace KeyTermTable

variable {table : KeyTermTable} {name : String}

/-- No key term is found in the empty table. -/
@[simp] theorem get?_empty (name : String) : empty.get? name = none := by
  rw [get?_eq_find?]
  rfl

/-- A key term is found under its name, unless another one came before it. -/
theorem get?_push (key : KeyTerm) :
    (table.push key).get? name =
      (table.get? name).or (if key.name = name then some key else none) := by
  rw [get?_eq_find?, get?_eq_find?]
  show (table.records.push key).find? _ = _
  rw [Array.find?_push]
  congr 1
  by_cases h : key.name = name <;> simp [h]

/-- A key term has the name under which it is found. -/
theorem name_of_get? {key : KeyTerm} (h : table.get? name = some key) : key.name = name := by
  rw [get?_eq_find?] at h
  have hname := Array.find?_some h
  exact of_decide_eq_true hname

/-- If a request is to be registered, its name is not taken. -/
theorem lookup_eq_none {request : KeyRequest} (h : table.lookup request = .ok none) :
    table.get? request.name = none := by
  unfold lookup at h
  split at h
  · next hnone => exact hnone
  · split at h
    · cases h
    · cases h

/-- If a request is answered, then by a key term of its name that agrees with it. -/
theorem lookup_eq_some {request : KeyRequest} {index : TermIndex}
    (h : table.lookup request = .ok (some index)) :
    ∃ key, table.get? request.name = some key ∧ key.agrees request = true ∧ key.term = index := by
  unfold lookup at h
  split at h
  · cases h
  · next existing hexisting =>
    split at h
    · next hagrees =>
      exact ⟨existing, hexisting, hagrees, Option.some.inj (Except.ok.inj h)⟩
    · cases h

end KeyTermTable

namespace Drafting

/-- A key term is found, refused, or added with the next number. -/
@[simp] theorem runOn_key (request : KeyRequest) (draft : Draft) :
    (key request).runOn draft =
      match draft.keyTerms.lookup request with
      | .error e => (.error e, draft)
      | .ok (some index) => (.ok index, draft)
      | .ok none =>
        match TermIndex.ofNat? draft.entries.size with
        | some index =>
          (.ok index, { draft.pushEntry request.entry with
            keyTerms := draft.keyTerms.push { request with term := index } })
        | none =>
          (.error (.rule request.name s!"grammar exceeds {termLimit} terms"), draft) := by
  unfold key
  rw [runOn_bind, runOn_get]
  simp only
  rw [runOn_bind, runOn_ofExcept]
  cases draft.keyTerms.lookup request with
  | error e => rfl
  | ok found =>
    cases found with
    | some index => rfl
    | none =>
      simp only
      rw [runOn_bind, runOn_push]
      simp only
      cases TermIndex.ofNat? draft.entries.size <;> rfl

end Drafting

/-! ## What steps keep

A relation between drafts that is reflexive and transitive holds between the drafts before and after
a step, whether the step fails or not, as soon as it holds for the steps of which it is made. -/

namespace Drafting

variable {α β : Type} {R : Draft → Draft → Prop} {p : Drafting α}

/-- Whatever becomes of the step, the draft before it is related to the draft after it. -/
def Follows (R : Draft → Draft → Prop) (p : Drafting α) : Prop :=
  ∀ draft : Draft, R draft (p.runOn draft).2

/-- What follows a relation follows every wider one. -/
theorem Follows.imp {R' : Draft → Draft → Prop} (h : p.Follows R)
    (himp : ∀ old new, R old new → R' old new) : p.Follows R' :=
  fun draft => himp _ _ (h draft)

theorem follows_pure [Std.Refl R] (a : α) : (pure a : Drafting α).Follows R :=
  fun draft => Std.Refl.refl draft

theorem follows_throw [Std.Refl R] (e : Error) : (throw e : Drafting α).Follows R :=
  fun draft => Std.Refl.refl draft

theorem follows_get [Std.Refl R] : (get : Drafting Draft).Follows R :=
  fun draft => Std.Refl.refl draft

theorem follows_map {f : α → β} (hp : p.Follows R) : (f <$> p).Follows R := by
  intro draft
  rw [runOn_map]
  exact hp draft

/-- Steps follow a relation one after the other, if each does. -/
theorem follows_bind [IsTrans Draft R] {f : α → Drafting β} (hp : p.Follows R)
    (hf : ∀ a, (f a).Follows R) : (p >>= f).Follows R := by
  intro draft
  have hfirst := hp draft
  rw [runOn_bind]
  rcases hrun : p.runOn draft with ⟨_ | a, middle⟩
  · rw [hrun] at hfirst
    exact hfirst
  · rw [hrun] at hfirst
    exact IsTrans.trans _ _ _ hfirst (hf a middle)

/-- A failure that is caught follows the relation up to there and from there on. -/
theorem follows_tryCatch [IsTrans Draft R] {f : Error → Drafting α} (hp : p.Follows R)
    (hf : ∀ e, (f e).Follows R) : (tryCatch p f : Drafting α).Follows R := by
  intro draft
  have hfirst := hp draft
  rw [runOn_tryCatch]
  rcases hrun : p.runOn draft with ⟨e | a, middle⟩
  · rw [hrun] at hfirst
    exact IsTrans.trans _ _ _ hfirst (hf e middle)
  · rw [hrun] at hfirst
    exact hfirst

/-- Steps for all members of a list follow the relation, if each does. -/
theorem follows_mapM [Std.Refl R] [IsTrans Draft R] {f : α → Drafting β} (hf : ∀ a, (f a).Follows R)
    (as : List α) : (as.mapM f).Follows R := by
  induction as with
  | nil => exact follows_pure []
  | cons a rest ih =>
    rw [List.mapM_cons]
    exact follows_bind (hf a) fun b => follows_bind ih fun bs => follows_pure (b :: bs)

theorem follows_forM [Std.Refl R] [IsTrans Draft R] {f : α → Drafting Unit}
    (hf : ∀ a, (f a).Follows R) (as : List α) : (as.forM f).Follows R := by
  induction as with
  | nil => exact follows_pure ()
  | cons a rest ih =>
    show (f a >>= fun _ => rest.forM f).Follows R
    exact follows_bind (hf a) fun _ => ih

end Drafting

end TypedGrammar
