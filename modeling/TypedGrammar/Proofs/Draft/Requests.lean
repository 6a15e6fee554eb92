import TypedGrammar.Proofs.Draft.Laws

/-!
# Requests

What terms are asked for, and the tables in which they are found again.  A draft is consistent if
every table leads to entries that are what was asked for, and if terminals have makers.  Whatever
registers something leaves the entries, the tables and the claims that were there as they were, and
the draft consistent.
-/

namespace TypedGrammar

/-- A terminal needs a maker; a rule without one is a sequence. -/
def Entry.HasMaker (entry : Entry) : Prop :=
  entry.isTerminal = true → entry.maker.isSome = true

theorem Entry.hasMaker_of_kind {entry : Entry} {shape : Option Shape}
    (h : entry.kind = .rule shape) : entry.HasMaker := by
  intro hterminal
  rw [Term.isTerminal_of_kind h] at hterminal
  cases hterminal

/-- Something to which a draft has one term at most. -/
inductive Request
  /-- A declaration, by its full name. -/
  | declared (typeName : String)
  /-- A key term, by its name. -/
  | key (name : String)
  | optional (shape : Shape)
  | group (shape : Shape)
  | list (spec : ListSpec)
  | braces (spec : BraceSpec)
  deriving DecidableEq

/-- The request for a key term that is named after its text, which is also its value. -/
def KeyRequest.ofText (text : String) (flags : Flags) : KeyRequest :=
  ⟨text, text, .text text, flags, none⟩

/-- Requests that are named after their texts agree with themselves. -/
theorem KeyRequest.ofText_agrees (text : String) (flags : Flags) :
    (ofText text flags).agrees (ofText text flags) = true := by
  simp [agrees, ofText, Value.equal]

namespace Draft

variable {draft old new later : Draft} {request other : Request} {index found : TermIndex}
  {entry : Entry} {shape : Shape}

/-- The term that answers a request, if there is one already. -/
def known? (draft : Draft) : Request → Option TermIndex
  | .declared typeName => draft.declared.lookup typeName
  | .key name => (draft.keyTerms.get? name).map (·.term)
  | .optional shape => draft.optionals.lookup shape
  | .group shape => draft.groups.lookup shape
  | .list spec => draft.lists.lookup spec
  | .braces spec => draft.braces.lookup spec

@[simp] theorem known?_empty (request : Request) : Draft.empty.known? request = none := by
  cases request with
  | key name =>
    show (KeyTermTable.empty.get? name).map _ = none
    rw [KeyTermTable.get?_empty]
    rfl
  | _ => rfl

/-- The new draft also knows the term of one request, unless the old one had a term for it. -/
def Learns (request : Request) (index : TermIndex) (old new : Draft) : Prop :=
  ∀ other, new.known? other = (old.known? other).or (if other = request then some index else none)

/-- What is learned is known. -/
theorem Learns.known (h : Learns request index old new) (hnew : old.known? request = none) :
    new.known? request = some index := by
  rw [h request, hnew, if_pos rfl, Option.none_or]

/-- What was known stays known. -/
theorem Learns.of_known (h : Learns request index old new)
    (hfound : old.known? other = some found) :
    new.known? other = some found := by
  rw [h other, hfound, Option.some_or]

/-- What is known was known before, or is what was learned. -/
theorem Learns.cases (h : Learns request index old new) (hfound : new.known? other = some found) :
    old.known? other = some found ∨ other = request ∧ found = index := by
  rw [h other] at hfound
  rcases Option.or_eq_some_iff.mp hfound with hold | ⟨_, hnew⟩
  · exact Or.inl hold
  · split at hnew
    · next heq => exact Or.inr ⟨heq, (Option.some.inj hnew).symm⟩
    · cases hnew

/-- In a table of pairs the first one counts. -/
theorem lookup_cons_eq_or {α : Type} [DecidableEq α] {table : List (α × TermIndex)} {a b : α}
    (hnew : table.lookup b = none) :
    ((b, index) :: table).lookup a =
      (table.lookup a).or (if a = b then some index else none) := by
  rw [List.lookup_cons]
  by_cases hab : a = b
  · subst hab
    simp [hnew]
  · rw [beq_eq_false_iff_ne.mpr hab, if_neg hab, Option.or_none]

/-! ## Consistency -/

/-- The item of a repetition: a shape that is one term, or the term of the group of the shape. -/
def IsGrouped (draft : Draft) (shape item : Shape) : Prop :=
  shape.term?.isSome = true ∧ item = shape ∨
    shape.term? = none ∧ ∃ index, draft.known? (.group shape) = some index ∧ item = .term index

/-- The entry is what was asked for. -/
def Fulfils (draft : Draft) (entry : Entry) : Request → Prop
  | .declared typeName => draft.claims.lookup entry.name = some typeName
  | .key name => entry.name = name ∧ ∃ text, entry.kind = .key text
  | .optional shape => entry.maker = some .optional ∧ entry.kind = .rule (some shape.orEmpty)
  | .group shape => entry.maker = none ∧ entry.kind = .rule (some shape)
  | .list spec => entry.maker = some (.list spec.element) ∧ ∃ item,
      draft.IsGrouped spec.item item ∧
        entry.kind = .rule (some (Shape.repetition item spec.delimiter spec.bounds))
  | .braces spec => entry.maker = some .brace ∧ ∃ opening closing item,
      draft.known? (.key spec.opening) = some opening ∧
      draft.known? (.key spec.closing) = some closing ∧ draft.IsGrouped spec.inside item ∧
        entry.kind = .rule (some
          (if spec.omissible then .term opening ++ item ++ .term closing ||| spec.inside
            else .term opening ++ item ++ .term closing))

/-- **Consistency of drafts.**  Whatever is known leads to an entry that is what was asked for, and
terminals have makers. -/
structure IsConsistent (draft : Draft) : Prop where
  known : ∀ request index, draft.known? request = some index →
    ∃ entry, draft.entries[index.value]? = some entry ∧ draft.Fulfils entry request
  makers : ∀ (n : ℕ) (entry : Entry), draft.entries[n]? = some entry → entry.HasMaker

/-- The empty draft is consistent. -/
theorem isConsistent_empty : Draft.empty.IsConsistent where
  known request index h := by
    rw [known?_empty] at h
    cases h
  makers n entry h := by
    rw [Draft.empty, Array.getElem?_empty] at h
    cases h

/-- All tables lead to entries. -/
theorem IsConsistent.value_lt (h : draft.IsConsistent)
    (hknown : draft.known? request = some index) :
    index.value < draft.entries.size := by
  obtain ⟨entry, hentry, _⟩ := h.known request index hknown
  exact (Array.getElem?_eq_some_iff.mp hentry).1

/-- Two declarations whose entries have one name are the same. -/
theorem IsConsistent.typeName_eq {a b : String} {i j : TermIndex} {entry entry' : Entry}
    (h : draft.IsConsistent) (ha : draft.known? (.declared a) = some i)
    (hb : draft.known? (.declared b) = some j) (hi : draft.entries[i.value]? = some entry)
    (hj : draft.entries[j.value]? = some entry') (hname : entry.name = entry'.name) : a = b := by
  obtain ⟨_, hi', hclaimed⟩ := h.known _ _ ha
  obtain ⟨_, hj', hclaimed'⟩ := h.known _ _ hb
  obtain rfl := Option.some.inj (hi.symm.trans hi')
  obtain rfl := Option.some.inj (hj.symm.trans hj')
  unfold Fulfils at hclaimed hclaimed'
  rw [hname, hclaimed'] at hclaimed
  exact (Option.some.inj hclaimed).symm

/-! ## Exactness -/

/-- A key term is registered that agrees with a request. -/
def HasKey (draft : Draft) (request : KeyRequest) : Prop :=
  ∃ key, draft.keyTerms.get? request.name = some key ∧ key.agrees request = true

/-- What is said about an entry besides what it was asked for: it has the flags of its kind only,
and the symbols of a brace are registered as such. -/
def Exactly (draft : Draft) (entry : Entry) : Request → Prop
  | .declared _ => True
  | .key _ => True
  | .optional _ => entry.flags = .none
  | .group _ => entry.flags = .none
  | .list _ => entry.flags = .ofList [.list]
  | .braces spec => entry.flags = .none ∧ draft.HasKey (.ofText spec.opening (.ofList [.openBrace])) ∧
      draft.HasKey (.ofText spec.closing (.ofList [.closeBrace]))

/-- **Exactness of drafts.**  Different requests have different terms, and nothing has set flags of
terms that no declaration stands for. -/
structure IsExact (draft : Draft) : Prop where
  distinct : ∀ request other index, draft.known? request = some index →
    draft.known? other = some index → request = other
  flags : ∀ request index entry, draft.known? request = some index →
    draft.entries[index.value]? = some entry → draft.Exactly entry request

/-- The empty draft is exact. -/
theorem isExact_empty : Draft.empty.IsExact where
  distinct request _ _ h := by
    rw [known?_empty] at h
    cases h
  flags request _ _ h := by
    rw [known?_empty] at h
    cases h

/-! ## Growth -/

/-- Key terms that were registered remain so. -/
def KeepsKeys (old new : Draft) : Prop :=
  ∀ name key, old.keyTerms.get? name = some key → new.keyTerms.get? name = some key

theorem HasKey.mono {request : KeyRequest} (h : old.HasKey request) (hkeys : old.KeepsKeys new) :
    new.HasKey request := by
  obtain ⟨key, hkey, hagrees⟩ := h
  exact ⟨key, hkeys _ _ hkey, hagrees⟩

theorem Exactly.mono (h : old.Exactly entry request) (hkeys : old.KeepsKeys new) :
    new.Exactly entry request := by
  cases request with
  | braces spec =>
    obtain ⟨hflags, hopening, hclosing⟩ := h
    exact ⟨hflags, hopening.mono hkeys, hclosing.mono hkeys⟩
  | _ => exact h

/-- **Growth.**  What is in the old draft is also in the new one, and unchanged. -/
structure Grows (old new : Draft) : Prop where
  entries : ∀ (n : ℕ) (entry : Entry), old.entries[n]? = some entry → new.entries[n]? = some entry
  known : ∀ request index, old.known? request = some index → new.known? request = some index
  claims : Drafting.KeepsClaims old.claims new.claims
  keys : old.KeepsKeys new
  consistent : old.IsConsistent → new.IsConsistent
  exact : old.IsConsistent → old.IsExact → new.IsExact

theorem Grows.refl (draft : Draft) : draft.Grows draft :=
  ⟨fun _ _ h => h, fun _ _ h => h, fun _ _ h => h, fun _ _ h => h, id, fun _ => id⟩

theorem Grows.trans (h : old.Grows new) (h' : new.Grows later) : old.Grows later where
  entries n entry hentry := h'.entries n entry (h.entries n entry hentry)
  known _ _ hknown := h'.known _ _ (h.known _ _ hknown)
  claims _ _ hclaim := h'.claims _ _ (h.claims _ _ hclaim)
  keys _ _ hkey := h'.keys _ _ (h.keys _ _ hkey)
  consistent hold := h'.consistent (h.consistent hold)
  exact hold hexact := h'.exact (h.consistent hold) (h.exact hold hexact)

/-- A draft that grows has no fewer entries. -/
theorem Grows.size_le (h : old.Grows new) : old.entries.size ≤ new.entries.size :=
  size_le_of_entries fun n entry hentry => ⟨entry, h.entries n entry hentry⟩

/-- What is grouped stays grouped, if no answers are forgotten. -/
theorem IsGrouped.mono {item : Shape} (h : old.IsGrouped shape item)
    (hknown : ∀ request index, old.known? request = some index → new.known? request = some index) :
    new.IsGrouped shape item := by
  rcases h with h | ⟨hterm, index, hindex, hitem⟩
  · exact Or.inl h
  · exact Or.inr ⟨hterm, index, hknown _ _ hindex, hitem⟩

/-- An entry stays what was asked for when tables and claims grow. -/
theorem Fulfils.mono (h : old.Fulfils entry request)
    (hknown : ∀ request index, old.known? request = some index → new.known? request = some index)
    (hclaims : Drafting.KeepsClaims old.claims new.claims) : new.Fulfils entry request := by
  cases request with
  | declared typeName => exact hclaims _ _ h
  | key name => exact h
  | optional shape => exact h
  | group shape => exact h
  | list spec =>
    obtain ⟨hmaker, item, hitem, hkind⟩ := h
    exact ⟨hmaker, item, hitem.mono hknown, hkind⟩
  | braces spec =>
    obtain ⟨hmaker, opening, closing, item, hopening, hclosing, hitem, hkind⟩ := h
    exact ⟨hmaker, opening, closing, item, hknown _ _ hopening, hknown _ _ hclosing,
      hitem.mono hknown, hkind⟩

/-- An array with one more entry has makers if the entry has. -/
theorem hasMaker_push {entries : Array Entry}
    (h : ∀ (n : ℕ) (entry : Entry), entries[n]? = some entry → entry.HasMaker)
    (hentry : entry.HasMaker) (n : ℕ) (found : Entry)
    (hfound : (entries.push entry)[n]? = some found) :
    found.HasMaker := by
  rw [Array.getElem?_push] at hfound
  split at hfound
  · rw [← Option.some.inj hfound]
    exact hentry
  · exact h n found hfound

/-- To add an entry that nothing leads to is to grow. -/
theorem grows_pushEntry (hmaker : entry.HasMaker) : draft.Grows (draft.pushEntry entry) where
  entries _ _ h := getElem?_push_of_some h
  known _ _ h := h
  claims _ _ h := h
  keys _ _ h := h
  consistent h := by
    refine ⟨fun request index hfound => ?_, hasMaker_push h.makers hmaker⟩
    obtain ⟨old, hold, hfulfils⟩ := h.known request index hfound
    exact ⟨old, getElem?_push_of_some hold, hfulfils.mono (fun _ _ h => h) fun _ _ h => h⟩
  exact h hexact := by
    refine ⟨hexact.distinct, fun request index found hknown hfound => ?_⟩
    obtain ⟨old, hold, _⟩ := h.known request index hknown
    obtain rfl := Option.some.inj ((getElem?_push_of_some hold).symm.trans hfound)
    exact hexact.flags request index old hknown hold

/-- To claim names is to grow. -/
theorem grows_claims {claims : List (String × String)}
    (hclaims : Drafting.KeepsClaims draft.claims claims) : draft.Grows { draft with claims } where
  entries _ _ h := h
  known _ _ h := h
  claims := hclaims
  keys _ _ h := h
  consistent h := by
    refine ⟨fun request index hfound => ?_, h.makers⟩
    obtain ⟨old, hold, hfulfils⟩ := h.known request index hfound
    exact ⟨old, hold, hfulfils.mono (fun _ _ h => h) hclaims⟩
  exact _ hexact := ⟨hexact.distinct, hexact.flags⟩

/-- An entry has come into a draft together with the request that it fulfils. -/
structure Gains (request : Request) (index : TermIndex) (entry : Entry) (draft new : Draft) :
    Prop where
  number : TermIndex.ofNat? draft.entries.size = some index
  entries : new.entries = draft.entries.push entry
  maker : entry.HasMaker
  claims : Drafting.KeepsClaims draft.claims new.claims
  keys : draft.KeepsKeys new
  learns : Learns request index draft new
  fulfils : new.Fulfils entry request
  exactly : new.Exactly entry request

/-- The number of the entry is new. -/
theorem Gains.not_known (h : Gains request index entry draft new) (hdraft : draft.IsConsistent) :
    draft.known? other ≠ some index := by
  intro hknown
  have hlt := hdraft.value_lt hknown
  rw [Drafting.value_of_ofNat? h.number] at hlt
  exact Nat.lt_irrefl _ hlt

/-- To add an entry together with the request that it fulfils is to grow. -/
theorem Gains.grows (h : Gains request index entry draft new) : draft.Grows new where
  entries n old hold := by
    rw [h.entries]
    exact getElem?_push_of_some hold
  known _ _ hknown := h.learns.of_known hknown
  claims := h.claims
  keys := h.keys
  consistent hdraft := by
    have hmakers := hasMaker_push hdraft.makers h.maker
    rw [← h.entries] at hmakers
    refine ⟨fun other found hfound => ?_, hmakers⟩
    -- What is known is what was known, or it is the new entry.
    rcases h.learns.cases hfound with hold | ⟨rfl, rfl⟩
    · obtain ⟨old, hentry, hold⟩ := hdraft.known other found hold
      refine ⟨old, by rw [h.entries, getElem?_push_of_some hentry], hold.mono ?_ h.claims⟩
      exact fun _ _ hknown => h.learns.of_known hknown
    · exact ⟨entry, by rw [h.entries, getElem?_push_ofNat? h.number], h.fulfils⟩
  exact hdraft hexact := by
    constructor
    · -- A term answers one request only: the new one has a number that no other has.
      intro first second found hfirst hsecond
      rcases h.learns.cases hfirst with hfirst | ⟨rfl, rfl⟩
      · rcases h.learns.cases hsecond with hsecond | ⟨rfl, rfl⟩
        · exact hexact.distinct first second found hfirst hsecond
        · exact absurd hfirst (h.not_known hdraft)
      · rcases h.learns.cases hsecond with hsecond | ⟨rfl, _⟩
        · exact absurd hsecond (h.not_known hdraft)
        · rfl
    · intro other found last hfound hlast
      rcases h.learns.cases hfound with hold | ⟨rfl, rfl⟩
      · obtain ⟨old, hentry, _⟩ := hdraft.known other found hold
        rw [h.entries, getElem?_push_of_some hentry] at hlast
        obtain rfl := Option.some.inj hlast
        exact (hexact.flags other found old hold hentry).mono h.keys
      · rw [h.entries, getElem?_push_ofNat? h.number] at hlast
        obtain rfl := Option.some.inj hlast
        exact h.exactly

/-! ## Changes of an entry -/

/-- A draft stays consistent when an entry is changed into one that fulfils the same requests. -/
theorem IsConsistent.modifyTerm {change : Term → Term} (h : draft.IsConsistent)
    (hchange : ∀ entry, draft.entries[index.value]? = some entry →
      (∀ request, draft.Fulfils entry request →
        draft.Fulfils { entry with toTerm := change entry.toTerm } request) ∧
      (entry.HasMaker → Entry.HasMaker { entry with toTerm := change entry.toTerm })) :
    (draft.modifyTerm index change).IsConsistent where
  known request found hfound := by
    obtain ⟨entry, hentry, hfulfils⟩ := h.known request found hfound
    rw [Draft.modifyTerm, Array.getElem?_modify]
    split
    · next heq =>
      rw [heq] at hchange
      rw [hentry]
      exact ⟨_, rfl, (hchange entry hentry).1 request hfulfils⟩
    · exact ⟨entry, hentry, hfulfils⟩
  makers n found hfound := by
    rw [Draft.modifyTerm, Array.getElem?_modify] at hfound
    split at hfound
    · next heq =>
      subst heq
      obtain ⟨entry, hentry, rfl⟩ := Option.map_eq_some_iff.mp hfound
      exact (hchange entry hentry).2 (h.makers _ entry hentry)
    · exact h.makers n found hfound

/-- Requests do not ask for flags. -/
theorem IsConsistent.withFlags (h : draft.IsConsistent) (change : Flags → Flags) :
    (draft.modifyTerm index fun term => { term with flags := change term.flags }).IsConsistent := by
  refine h.modifyTerm fun entry _ => ⟨fun request hfulfils => ?_, id⟩
  cases request with
  | _ => exact hfulfils

/-- A rule that has no shape yet is known only to declarations, which say nothing about it. -/
theorem IsConsistent.withShape (h : draft.IsConsistent)
    (hentry : draft.entries[index.value]? = some entry) (hpending : entry.kind = .rule none) :
    (draft.modifyTerm index (·.withShape shape)).IsConsistent := by
  refine h.modifyTerm fun found hfound => ⟨fun request hfulfils => ?_, fun _ => nofun⟩
  obtain rfl := Option.some.inj (hentry.symm.trans hfound)
  have hnot : ∀ kind, entry.kind = kind → kind = .rule none := fun kind hkind =>
    hkind.symm.trans hpending
  cases request with
  | declared typeName => exact hfulfils
  | key name =>
    obtain ⟨_, text, hkind⟩ := hfulfils
    cases hnot _ hkind
  | optional shape => cases hnot _ hfulfils.2
  | group shape => cases hnot _ hfulfils.2
  | list spec =>
    obtain ⟨_, item, _, hkind⟩ := hfulfils
    cases hnot _ hkind
  | braces spec =>
    obtain ⟨_, _, _, _, _, _, _, hkind⟩ := hfulfils
    cases hnot _ hkind

/-- A draft stays exact when an entry is changed but for its flags. -/
theorem IsExact.modifyTerm {change : Term → Term} (h : draft.IsExact)
    (hchange : ∀ term, (change term).flags = term.flags) :
    (draft.modifyTerm index change).IsExact where
  distinct := h.distinct
  flags request found entry hfound hentry := by
    rw [Draft.modifyTerm, Array.getElem?_modify] at hentry
    have hexactly : ∀ old : Entry, draft.Exactly old request →
        draft.Exactly { old with toTerm := change old.toTerm } request := by
      intro old hold
      unfold Exactly at hold ⊢
      simp only [hchange]
      exact hold
    split at hentry
    · obtain ⟨old, hold, rfl⟩ := Option.map_eq_some_iff.mp hentry
      exact hexactly old (h.flags request found old hfound hold)
    · exact h.flags request found entry hfound hentry

/-- Flags may be set for the term of a declaration. -/
theorem IsExact.withFlags {typeName : String} (h : draft.IsExact)
    (hknown : draft.known? (.declared typeName) = some index) (change : Flags → Flags) :
    (draft.modifyTerm index fun term => { term with flags := change term.flags }).IsExact where
  distinct := h.distinct
  flags request found entry hfound hentry := by
    rw [Draft.modifyTerm, Array.getElem?_modify] at hentry
    split at hentry
    · next heq =>
      obtain rfl := Drafting.eq_of_value heq
      obtain rfl := h.distinct _ _ _ hknown hfound
      exact trivial
    · exact h.flags request found entry hfound hentry

/-- What came into a draft later may still get its shape. -/
theorem Grows.withShape (h : old.Grows new) (hlater : old.entries.size ≤ index.value)
    (hentry : new.entries[index.value]? = some entry) (hpending : entry.kind = .rule none) :
    old.Grows (new.modifyTerm index (·.withShape shape)) where
  entries n first hfirst := by
    have hlt : n < old.entries.size := (Array.getElem?_eq_some_iff.mp hfirst).1
    rw [Draft.modifyTerm, Array.getElem?_modify, if_neg (by omega)]
    exact h.entries n first hfirst
  known := h.known
  claims := h.claims
  keys := h.keys
  consistent hold := (h.consistent hold).withShape hentry hpending
  exact hold hexact := (h.exact hold hexact).modifyTerm fun _ => rfl

end Draft

end TypedGrammar
