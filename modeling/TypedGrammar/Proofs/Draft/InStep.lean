import TypedGrammar.Proofs.Draft.Definitions
import TypedGrammar.Proofs.Draft.Renaming

/-!
# Steps that go in step

Two steps go in step if they keep drafts renamed: both succeed, with results that a relation holds
of, or both fail.  Nothing is said once the first draft has some property, from which it will not
recover.  Such a property is that a declaration was left without its shape by a failure.
-/

namespace TypedGrammar

/-! ## Broken drafts -/

namespace Draft

variable {old new : Draft} {entry : Entry} {index : TermIndex}

/-- A rule other than that of a node type waits for its shape. -/
def IsBroken (draft : Draft) : Prop :=
  ∃ (n : ℕ) (entry : Entry), draft.entries[n]? = some entry ∧ entry.kind = .rule none ∧
    ¬ entry.IsNodeType

/-- What is broken stays so. -/
def StaysBroken (old new : Draft) : Prop :=
  old.IsBroken → new.IsBroken

instance : Std.Refl StaysBroken :=
  ⟨fun _ => id⟩

instance : IsTrans Draft StaysBroken :=
  ⟨fun _ _ _ h h' => h' ∘ h⟩

/-- A draft that is extended stays broken. -/
theorem Extends.staysBroken (h : old.Extends new) : old.StaysBroken new := by
  rintro ⟨n, entry, hentry, hkind, hnode⟩
  obtain ⟨entry', hentry', hstays⟩ := h.entries n entry hentry
  refine ⟨n, entry', hentry', hstays.kind_eq.trans hkind, ?_⟩
  rintro ⟨owner, value, hmaker⟩
  exact hnode ⟨owner, value, hstays.maker_eq.symm.trans hmaker⟩

/-- A node type that gets its shape does not mend anything. -/
theorem staysBroken_withShape (hentry : old.entries[index.value]? = some entry)
    (hnode : entry.IsNodeType) (shape : Shape) :
    old.StaysBroken (old.modifyTerm index (·.withShape shape)) := by
  rintro ⟨n, found, hfound, hkind, hnot⟩
  have hn : index.value ≠ n := by
    rintro rfl
    obtain rfl := Option.some.inj (hentry.symm.trans hfound)
    exact hnot hnode
  exact ⟨n, found, (getElem?_withShape_of_ne hn).trans hfound, hkind, hnot⟩

/-- Flags do not matter. -/
theorem staysBroken_withFlags (index : TermIndex) (change : Flags → Flags) :
    old.StaysBroken
      (old.modifyTerm index fun term => { term with flags := change term.flags }) := by
  rintro ⟨n, found, hfound, hkind, hnot⟩
  by_cases hn : index.value = n
  · refine ⟨n, { found with flags := change found.flags }, ?_, hkind, hnot⟩
    rw [Draft.modifyTerm, Array.getElem?_modify, if_pos hn, hfound]
    rfl
  · refine ⟨n, found, ?_, hkind, hnot⟩
    rw [Draft.modifyTerm, Array.getElem?_modify, if_neg hn, hfound]

end Draft

namespace Drafting

open Draft

variable {α β γ δ : Type} {B B' : Draft → Prop} {R R' : TermIndex → TermIndex → Prop}
  {V V' : (TermIndex → TermIndex → Prop) → α → β → Prop}
  {W : (TermIndex → TermIndex → Prop) → γ → δ → Prop} {p : Drafting α} {q : Drafting β}
  {a b : Draft} {s t : Shape} {i j : TermIndex}

/-- A step that only extends drafts leaves broken ones broken. -/
theorem Respects.staysBroken (h : p.Respects ∅) : p.Follows StaysBroken :=
  h.imp fun _ _ hleads => hleads.extension.staysBroken

/-- Setting flags mends nothing. -/
theorem staysBroken_setFlags (index : TermIndex) (flags : Flags) (on : Bool) :
    (setFlags index flags on).Follows StaysBroken := by
  intro draft
  rw [runOn_setFlags]
  split
  · exact id
  · exact staysBroken_withFlags index fun old => old.assign flags on

/-! ## Runs in step -/

/-- Two runs leave drafts renamed, for some relation between terms that goes on from `R`, and both
fail, or have results of which `V` holds; or `B` holds of the first draft. -/
inductive RunsInStep (B : Draft → Prop) (R : TermIndex → TermIndex → Prop)
    (V : (TermIndex → TermIndex → Prop) → α → β → Prop) :
    Except Error α × Draft → Except Error β × Draft → Prop
  | broken {run : Except Error α × Draft} {run' : Except Error β × Draft} :
      B run.2 → RunsInStep B R V run run'
  | ok {x : α} {y : β} {a b : Draft} (R' : TermIndex → TermIndex → Prop) :
      R ≤ R' → Draft.Renames R' a b → V R' x y → RunsInStep B R V (.ok x, a) (.ok y, b)
  | error {e f : Error} {a b : Draft} (R' : TermIndex → TermIndex → Prop) :
      R ≤ R' → Draft.Renames R' a b → RunsInStep B R V (.error e, a) (.error f, b)

/-- Two steps go in step if their runs from renamed drafts do, as soon as the terms are related
that `R` relates. -/
def InStep (B : Draft → Prop) (R : TermIndex → TermIndex → Prop)
    (V : (TermIndex → TermIndex → Prop) → α → β → Prop) (p : Drafting α) (q : Drafting β) : Prop :=
  ∀ R', R ≤ R' → ∀ a b, Draft.Renames R' a b → RunsInStep B R' V (p.runOn a) (q.runOn b)

/-- A property that no draft has. -/
def Never (_ : Draft) : Prop :=
  False

section Runs

variable {run : Except Error α × Draft} {run' : Except Error β × Draft}

/-- Runs that are in step still are if less is asked of their results or more drafts are
left out. -/
theorem RunsInStep.imp (h : RunsInStep B R V run run') (hB : ∀ draft, B draft → B' draft)
    (hV : ∀ R', R ≤ R' → ∀ x y, V R' x y → V' R' x y) : RunsInStep B' R V' run run' := by
  cases h with
  | broken hbroken => exact .broken (hB _ hbroken)
  | ok R' hR hrenames hxy => exact .ok R' hR hrenames (hV R' hR _ _ hxy)
  | error R' hR hrenames => exact .error R' hR hrenames

/-- Runs that go on from a wider relation go on from a narrower one. -/
theorem RunsInStep.of_le (h : RunsInStep B R' V run run') (hR : R ≤ R') :
    RunsInStep B R V run run' := by
  cases h with
  | broken hbroken => exact .broken hbroken
  | ok R'' hR' hrenames hxy => exact .ok R'' (le_trans hR hR') hrenames hxy
  | error R'' hR' hrenames => exact .error R'' (le_trans hR hR') hrenames

end Runs

/-- Steps that always go in step do so unless a draft is broken. -/
theorem InStep.weaken (h : InStep Never R V p q) : InStep B R V p q :=
  fun R' hR a b hrenames =>
    (h R' hR a b hrenames).imp (fun _ hnever => hnever.elim) fun _ _ _ _ => id

/-- Steps still go in step once more terms are related. -/
theorem InStep.mono (h : InStep B R V p q) (hR : R ≤ R') : InStep B R' V p q :=
  fun R'' hR' => h R'' (le_trans hR hR')

/-- Results of which the relation holds are given in step. -/
theorem inStep_pure {x : α} {y : β} (h : ∀ R', R ≤ R' → V R' x y) :
    InStep B R V (pure x) (pure y) :=
  fun R' hR _ _ hrenames => .ok R' (le_refl R') hrenames (h R' hR)

/-- Failures are in step, whatever their errors are. -/
theorem inStep_throw (e f : Error) : InStep B R V (throw e) (throw f) :=
  fun R' _ _ _ hrenames => .error R' (le_refl R') hrenames

/-! ### Composition -/

section Bind

variable {f : α → Drafting γ} {g : β → Drafting δ}

/-- Runs go in step if they begin so, and go on so from renamed drafts. -/
theorem RunsInStep.bind (h : RunsInStep B R V (p.runOn a) (q.runOn b))
    (hB : ∀ draft, B draft → B' draft)
    (hkeeps : ∀ x a', p.runOn a = (.ok x, a') → B a' → B' ((f x).runOn a').2)
    (hnext : ∀ R', R ≤ R' → ∀ x y a' b', p.runOn a = (.ok x, a') →
      Draft.Renames R' a' b' → V R' x y → RunsInStep B' R' W ((f x).runOn a') ((g y).runOn b')) :
    RunsInStep B' R W ((p >>= f).runOn a) ((q >>= g).runOn b) := by
  generalize hrun : p.runOn a = run, hrun' : q.runOn b = run' at h
  rw [runOn_bind, runOn_bind, hrun, hrun']
  cases h with
  | broken hbroken =>
    -- The other run may have failed already, so all that follows has to keep the draft broken.
    refine .broken ?_
    rcases run with ⟨e | x, a'⟩
    · exact hB a' hbroken
    · exact hkeeps x a' hrun hbroken
  | ok R' hR hrenames hxy => exact (hnext R' hR _ _ _ _ hrun hrenames hxy).of_le hR
  | error R' hR hrenames => exact .error R' hR hrenames

/-- What always goes in step may go first. -/
theorem RunsInStep.then (h : RunsInStep Never R V (p.runOn a) (q.runOn b))
    (hnext : ∀ R', R ≤ R' → ∀ x y a' b', p.runOn a = (.ok x, a') →
      Draft.Renames R' a' b' → V R' x y → RunsInStep B R' W ((f x).runOn a') ((g y).runOn b')) :
    RunsInStep B R W ((p >>= f).runOn a) ((q >>= g).runOn b) :=
  h.bind (fun _ => False.elim) (fun _ _ _ => False.elim) hnext

/-- Steps that go in step, one after the other, do so unless a draft is broken. -/
theorem InStep.bind (h : InStep IsBroken R V p q) (hf : ∀ x, (f x).Follows StaysBroken)
    (hnext : ∀ R', R ≤ R' → ∀ x y, V R' x y → InStep IsBroken R' W (f x) (g y)) :
    InStep IsBroken R W (p >>= f) (q >>= g) := by
  intro R' hR a b hrenames
  refine (h R' hR a b hrenames).bind (fun _ => id) (fun x a' _ => hf x a') ?_
  intro R'' hR' x y a' b' _ hrenames' hxy
  exact hnext R'' (le_trans hR hR') x y hxy R'' (le_refl R'') a' b' hrenames'

/-- Steps that always go in step may be followed by others that do. -/
theorem InStep.then (h : InStep Never R V p q)
    (hnext : ∀ R', R ≤ R' → ∀ x y, V R' x y → InStep B R' W (f x) (g y)) :
    InStep B R W (p >>= f) (q >>= g) := by
  intro R' hR a b hrenames
  refine (h R' hR a b hrenames).then fun R'' hR' x y a' b' _ hrenames' hxy => ?_
  exact hnext R'' (le_trans hR hR') x y hxy R'' (le_refl R'') a' b' hrenames'

/-- What depends on the draft goes in step if it does for any renamed drafts. -/
theorem inStep_get {f : Draft → Drafting γ} {g : Draft → Drafting δ}
    (hnext : ∀ R', R ≤ R' → ∀ a b, Draft.Renames R' a b →
      RunsInStep B R' W ((f a).runOn a) ((g b).runOn b)) :
    InStep B R W (get >>= f) (get >>= g) := by
  intro R' hR a b hrenames
  rw [runOn_bind, runOn_bind]
  exact hnext R' hR a b hrenames

end Bind

/-- Results may be turned into others that correspond. -/
theorem InStep.map {f : α → γ} {g : β → δ} (h : InStep B R V p q)
    (hfg : ∀ R', R ≤ R' → ∀ x y, V R' x y → W R' (f x) (g y)) :
    InStep B R W (f <$> p) (g <$> q) := by
  intro R' hR a b hrenames
  have hruns := h R' hR a b hrenames
  rw [runOn_map, runOn_map]
  generalize p.runOn a = run, q.runOn b = run' at hruns
  cases hruns with
  | broken hbroken => exact .broken hbroken
  | ok R'' hR' hrenames' hxy => exact .ok R'' hR' hrenames' (hfg R'' (le_trans hR hR') _ _ hxy)
  | error R'' hR' hrenames' => exact .error R'' hR' hrenames'

/-- What catches failures goes on from the drafts that they leave. -/
theorem InStep.recover {f : Error → Drafting α} {g : Error → Drafting β}
    (h : InStep IsBroken R V p q) (hf : ∀ e, (f e).Follows StaysBroken)
    (hnext : ∀ e e', InStep IsBroken R V (f e) (g e')) :
    InStep IsBroken R V (tryCatch p f) (tryCatch q g) := by
  intro R' hR a b hrenames
  have hruns := h R' hR a b hrenames
  rw [runOn_tryCatch, runOn_tryCatch]
  generalize p.runOn a = run, q.runOn b = run' at hruns
  cases hruns with
  | @broken run _ hbroken =>
    refine .broken ?_
    rcases run with ⟨e | x, a'⟩
    · exact hf e a' hbroken
    · exact hbroken
  | ok R'' hR' hrenames' hxy => exact .ok R'' hR' hrenames' hxy
  | error R'' hR' hrenames' => exact (hnext _ _ R'' (le_trans hR hR') _ _ hrenames').of_le hR'

/-! ## Calls -/

/-- A key term is found in both drafts, refused in both, or added to both. -/
theorem inStep_key (request : KeyRequest) :
    InStep B R (fun R => R) (key request) (key request) := by
  intro R' _ a b h
  have hanswers := h.lookup_key request
  rw [runOn_key, runOn_key]
  generalize a.keyTerms.lookup request = found, b.keyTerms.lookup request = found' at hanswers
  cases hanswers with
  | refused => exact .error R' (le_refl R') h
  | found hij => exact .ok R' (le_refl R') h hij
  | unknown =>
    -- The drafts are of the same size, so there is room in both of them or in neither.
    simp only
    rw [← h.size_eq]
    cases hi : TermIndex.ofNat? a.entries.size with
    | none => exact .error R' (le_refl R') h
    | some i =>
      have hpushed := h.pushEntry request.entry request.entry hi (h.size_eq ▸ hi) Iff.rfl
      exact .ok (relating R' i i) (le_relating R' i i)
        (hpushed.pushKey request (relating_self R' i i)) (relating_self R' i i)

/-- Rules with their shapes are added in step, whatever their shapes are. -/
theorem inStep_defineRule (name name' : String) (flags : Flags) (maker : Option Maker)
    (s t : Shape) :
    InStep B R (fun R => R) (defineRule name flags maker s) (defineRule name' flags maker t) := by
  intro R' _ a b h
  rw [runOn_defineRule, runOn_defineRule, ← h.size_eq]
  cases hi : TermIndex.ofNat? a.entries.size with
  | none => exact .error R' (le_refl R') h
  | some i =>
    exact .ok (relating R' i i) (le_relating R' i i)
      (h.pushEntry _ _ hi (h.size_eq ▸ hi) (iff_of_false nofun nofun)) (relating_self R' i i)

/-- A rule is added and noted in step, if the notes keep drafts renamed. -/
theorem inStep_noteRule {name name' : String} {flags : Flags} {maker : Option Maker}
    {note note' : TermIndex → Draft → Draft}
    (hnote : ∀ R', R ≤ R' → ∀ i j a b, R' i j → Draft.Renames R' a b →
      Draft.Renames R' (note i a) (note' j b)) :
    InStep Never R Shape.Renames (noteRule name flags maker s note)
      (noteRule name' flags maker t note') := by
  refine (inStep_defineRule name name' flags maker s t).then fun R₁ hR₁ i j hij => ?_
  intro R₂ hR₂ a b h
  exact .ok R₂ (le_refl R₂) (hnote R₂ (le_trans hR₁ hR₂) i j a b (hR₂ _ _ hij) h)
    (Shape.renames_term (hR₂ _ _ hij))

/-- A term that is found for one request is found for the other, or else both are made. -/
theorem runsInStep_found {x y : Option TermIndex} {make make' : Drafting Shape}
    (h : Draft.Renames R a b) (hfound : Option.Rel R x y)
    (hmake : InStep Never R Shape.Renames make make') :
    RunsInStep Never R Shape.Renames
      ((match (motive := Option TermIndex → Drafting Shape) x with
        | some index => return .term index
        | none => make).runOn a)
      ((match (motive := Option TermIndex → Drafting Shape) y with
        | some index => return .term index
        | none => make').runOn b) := by
  cases hfound with
  | some hij => exact .ok R (le_refl R) h (Shape.renames_term hij)
  | none => exact hmake R (le_refl R) a b h

/-- Renamed shapes are grouped in step. -/
theorem inStep_group (hs : s.Renames R t) :
    InStep Never R Shape.Renames (group s) (group t) := by
  unfold group
  rw [← hs.isSome_eq]
  split
  · exact inStep_pure fun R' hR => hs.mono hR
  · refine inStep_get fun R₁ hR₁ a b h => ?_
    refine runsInStep_found h (h.lookup_groups (hs.mono hR₁)) (inStep_get fun R₂ hR₂ a' b' h' => ?_)
    exact inStep_noteRule (fun R₃ hR₃ i j a b hij h =>
      h.noteGroup (hs.mono (le_trans hR₁ (le_trans hR₂ hR₃))) hij) R₂ (le_refl R₂) a' b' h'

/-- Renamed shapes are made optional in step. -/
theorem inStep_optional (hs : s.Renames R t) :
    InStep Never R Shape.Renames (optional s) (optional t) := by
  refine inStep_get fun R₁ hR₁ a b h => ?_
  refine runsInStep_found h (h.lookup_optionals (hs.mono hR₁))
    (inStep_get fun R₂ hR₂ a' b' h' => ?_)
  exact inStep_noteRule (fun R₃ hR₃ i j a b hij h =>
    h.noteOptional (hs.mono (le_trans hR₁ (le_trans hR₂ hR₃))) hij) R₂ (le_refl R₂) a' b' h'

/-- Lists of renamed items with renamed delimiters are registered in step. -/
theorem inStep_list {delimiter delimiter' : Option Shape} (element : ValueType) (bounds : Bounds)
    (hs : s.Renames R t) (hdelimiter : Option.Rel (Shape.Renames R) delimiter delimiter') :
    InStep Never R Shape.Renames (list element s delimiter bounds)
      (list element t delimiter' bounds) := by
  have hspec : (⟨element, s, delimiter, bounds⟩ : ListSpec).Renames R
      ⟨element, t, delimiter', bounds⟩ := ⟨rfl, hs, hdelimiter, rfl⟩
  refine inStep_get fun R₁ hR₁ a b h => ?_
  refine runsInStep_found h (h.lookup_lists (ListSpec.Renames.mono hR₁ _ _ hspec)) ?_
  refine (inStep_group (hs.mono hR₁)).then fun R₂ hR₂ item item' _ => ?_
  refine inStep_get fun R₃ hR₃ a' b' h' => ?_
  have hR : R ≤ R₃ := le_trans hR₁ (le_trans hR₂ hR₃)
  exact inStep_noteRule (fun R₄ hR₄ i j a b hij h =>
    h.noteList (ListSpec.Renames.mono (le_trans hR hR₄) _ _ hspec) hij) R₃ (le_refl R₃) a' b' h'

/-- Braces around renamed shapes are registered in step. -/
theorem inStep_braces (opening closing : String) (omissible : Bool) (hs : s.Renames R t) :
    InStep Never R Shape.Renames (braces opening s closing omissible)
      (braces opening t closing omissible) := by
  have hspec : (⟨opening, s, closing, omissible⟩ : BraceSpec).Renames R
      ⟨opening, t, closing, omissible⟩ := ⟨rfl, hs, rfl, rfl⟩
  refine inStep_get fun R₁ hR₁ a b h => ?_
  refine runsInStep_found h (h.lookup_braces (BraceSpec.Renames.mono hR₁ _ _ hspec)) ?_
  refine (inStep_key _).then fun R₂ hR₂ _ _ _ => (inStep_key _).then fun R₃ hR₃ _ _ _ => ?_
  have hR : R ≤ R₃ := le_trans hR₁ (le_trans hR₂ hR₃)
  refine (inStep_group (hs.mono hR)).then fun R₄ hR₄ _ _ _ => ?_
  refine inStep_get fun R₅ hR₅ a' b' h' => ?_
  have hR' : R ≤ R₅ := le_trans hR (le_trans hR₄ hR₅)
  exact inStep_noteRule (fun R₆ hR₆ i j a b hij h =>
    h.noteBraces (BraceSpec.Renames.mono (le_trans hR' hR₆) _ _ hspec) hij) R₅ (le_refl R₅) a' b' h'

/-- Rules without nodes are added in step, whatever their shapes are. -/
theorem inStep_withoutNode (s t : Shape) :
    InStep Never R Shape.Renames (withoutNode s) (withoutNode t) :=
  inStep_get fun R' _ a b h =>
    ((inStep_defineRule _ _ _ none s t).map fun _ _ _ _ => Shape.renames_term) R' (le_refl R') a b h

/-- Rules with a maker are added in step, whatever their shapes are. -/
theorem inStep_custom (name : String) (maker : Maker) (s t : Shape) :
    InStep Never R Shape.Renames (custom name s maker) (custom name t maker) :=
  (inStep_defineRule name name .none (some maker) s t).map fun _ _ _ _ => Shape.renames_term

/-! ## Declarations -/

/-- The same declaration is refused in both drafts, or registered in both. -/
theorem inStep_declare (typeName : String) (entry : Entry) :
    InStep B R (fun R => R) (declare typeName entry) (declare typeName entry) := by
  intro R' _ a b h
  obtain ⟨result, claims, hclaim, _, _⟩ := claim_cases typeName entry.name a.claims
  have hclaimed := h.claim claims
  unfold declare
  rw [runOn_bind, runOn_bind, hclaim a rfl, hclaim b h.claims.symm]
  cases result with
  | error e => exact .error R' (le_refl R') hclaimed
  | ok _ =>
    simp only
    rw [runOn_bind, runOn_bind, runOn_push, runOn_push, ← hclaimed.size_eq]
    cases hi : TermIndex.ofNat? a.entries.size with
    | none => exact .error R' (le_refl R') hclaimed
    | some i =>
      have hpushed := hclaimed.pushEntry entry entry hi (hclaimed.size_eq ▸ hi) Iff.rfl
      exact .ok (relating R' i i) (le_relating R' i i)
        (hpushed.declare typeName (relating_self R' i i)) (relating_self R' i i)

/-- The entry of a declaration that is registered. -/
theorem entry_of_declare {typeName : String} {entry : Entry} {index : TermIndex} {after : Draft}
    (h : (declare typeName entry).runOn a = (.ok index, after)) :
    after.entries[index.value]? = some entry := by
  rcases declare_cases typeName entry a with
    ⟨e, claims, hcase, _⟩ | ⟨next, claims, hindex, hcase, _, _⟩
  · rw [hcase] at h
    cases h
  · rw [hcase] at h
    obtain ⟨rfl, rfl⟩ := ok_inj h
    exact getElem?_push_ofNat? hindex

/-- A declaration is found in both drafts, or made in both. -/
theorem inStep_declaredOr {typeName : String} {make make' : Drafting TermIndex}
    (h : InStep B R (fun R => R) make make') :
    InStep B R (fun R => R) (declaredOr typeName make) (declaredOr typeName make') := by
  intro R' hR a b hrenames
  have hdeclared := hrenames.lookup_declared typeName
  rw [runOn_declaredOr, runOn_declaredOr]
  generalize a.declared.lookup typeName = found, b.declared.lookup typeName = found' at hdeclared
  cases hdeclared with
  | some hij => exact .ok R' (le_refl R') hrenames hij
  | none => exact h R' hR a b hrenames

/-- An identifier is registered in step. -/
theorem inStep_identifier (type : IdentifierDeclaration) :
    InStep B R (fun R => R) (identifier type) (identifier type) :=
  inStep_declaredOr (inStep_declare _ _)

/-- A literal is registered in step. -/
theorem inStep_literal (type : LiteralDeclaration) :
    InStep B R (fun R => R) (literal type) (literal type) :=
  inStep_declaredOr (inStep_declare _ _)

end Drafting

end TypedGrammar
