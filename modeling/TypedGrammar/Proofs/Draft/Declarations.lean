import Mathlib.Data.List.Forall2
import Mathlib.Data.Set.Defs
import TypedGrammar.Proofs.Draft.Extension

/-!
# Registered declarations

Each key term of a draft stands in an entry of its own, and so does each declaration.  This holds
if declarations are told apart by their full names, and it is kept by every step of drafting, also
by one that fails.
-/

namespace TypedGrammar

/-! ## Declarations -/

/-- A declaration of any kind. -/
inductive TypeDeclaration
  | node (type : NodeDeclaration)
  | identifier (type : IdentifierDeclaration)
  | literal (type : LiteralDeclaration)
  | constant (type : ConstantDeclaration)
  | operator (type : OperatorDeclaration)

namespace TypeDeclaration

/-- The full name of a declaration. -/
def typeName : TypeDeclaration → String
  | node type => type.typeName
  | identifier type => type.typeName
  | literal type => type.typeName
  | constant type => type.typeName
  | operator type => type.typeName

/-- The entry as which a declaration is registered at first. -/
def entry : TypeDeclaration → Entry
  | node type => type.pending
  | identifier type => {
    name := type.name
    kind := .identifier type.case
    maker := some (.identifier fun occurrence => .ok (occurrence.token.getD "")) }
  | literal type => {
    name := type.name
    kind := .literal type.form
    flags := .ofList [.literal]
    maker := some type.maker }
  | constant type => {
    name := type.name
    kind := .rule none
    flags := if type.transient then .ofList [.transient] else .none
    maker := some (.constant type.type) }
  | operator type => {
    name := type.name
    kind := .rule none
    flags := .ofList [.transient] }

/-- The key terms that a declaration is a choice of. -/
def requests : TypeDeclaration → List KeyRequest
  | constant type =>
    let flags := if type.keywords then .ofList [.keyword, .reserved] else .none
    type.constants.map fun c => ⟨c.name, c.text, c.value, flags, none⟩
  | operator type =>
    type.operators.map fun o => ⟨o.name, o.text, o.value, .ofList [.operator], some o.precedence⟩
  | _ => []

end TypeDeclaration

/-- A value may replace another one that is the same, or that their type calls equal. -/
def Value.Replaces (value other : Value) : Prop :=
  value = other ∨ value.equal other = true

/-- A key term serves a request if everything is as asked for, or replaced by an equal value. -/
structure KeyRequest.Serves (record request : KeyRequest) : Prop where
  text : record.text = request.text
  flags : record.flags = request.flags
  precedence : record.precedence = request.precedence
  value : record.value.Replaces request.value

theorem KeyRequest.Serves.refl (request : KeyRequest) : request.Serves request :=
  ⟨rfl, rfl, rfl, Or.inl rfl⟩

/-- A key term that agrees with a request serves it. -/
theorem KeyRequest.serves_of_agrees {record request : KeyRequest}
    (h : record.agrees request = true) : record.Serves request := by
  unfold agrees at h
  simp only [Bool.and_eq_true, decide_eq_true_eq] at h
  obtain ⟨⟨⟨htext, hflags⟩, hprecedence⟩, hvalue⟩ := h
  exact ⟨htext, hflags, hprecedence, Or.inr hvalue⟩

/-- The entry of a key term does not belong to a node type. -/
theorem KeyRequest.not_isNodeType (request : KeyRequest) : ¬ request.entry.IsNodeType := by
  rintro ⟨owner, value, h⟩
  cases h

namespace Draft

variable {draft old new base : Draft} {index : TermIndex} {types : Set TypeDeclaration}
  {type : TypeDeclaration} {request : KeyRequest} {shape : Shape}

/-! ## What stands where -/

/-- The term of an index is the key term that serves a request. -/
def Registers (draft : Draft) (request : KeyRequest) (index : TermIndex) : Prop :=
  ∃ key, draft.keyTerms.get? request.name = some key ∧ key.toKeyRequest.Serves request ∧
    key.term = index

theorem Registers.mono (h : old.Registers request index) (hext : old.Extends new) :
    new.Registers request index := by
  obtain ⟨key, hkey, hserves, hterm⟩ := h
  exact ⟨key, hext.keys _ _ hkey, hserves, hterm⟩

/-- A shape that a declaration may have: any for a node type, for the others the choice of their
key terms. -/
def Fits (draft : Draft) (shape : Shape) : TypeDeclaration → Prop
  | .node _ => True
  | type => ∃ keys, List.Forall₂ draft.Registers type.requests keys ∧
      shape = Drafting.choiceOf keys

theorem Fits.mono (h : old.Fits shape type) (hext : old.Extends new) : new.Fits shape type := by
  have hkeys : (∃ keys, List.Forall₂ old.Registers type.requests keys ∧
      shape = Drafting.choiceOf keys) →
      ∃ keys, List.Forall₂ new.Registers type.requests keys ∧ shape = Drafting.choiceOf keys := by
    rintro ⟨keys, hkeys, hshape⟩
    exact ⟨keys, hkeys.imp fun _ _ h => h.mono hext, hshape⟩
  cases type with
  | node type => trivial
  | identifier type => exact hkeys h
  | literal type => exact hkeys h
  | constant type => exact hkeys h
  | operator type => exact hkeys h

/-- The declaration stands in the entry of an index, with its shape or still without one. -/
def StandsAt (draft : Draft) (index : TermIndex) (type : TypeDeclaration) : Prop :=
  ∃ kind entry, draft.entries[index.value]? = some entry ∧
    ({ type.entry with kind := kind } : Entry).Stays entry ∧
    (kind = type.entry.kind ∨
      type.entry.kind = .rule none ∧ ∃ shape, kind = .rule (some shape) ∧ draft.Fits shape type)

theorem StandsAt.mono (h : old.StandsAt index type) (hext : old.Extends new) :
    new.StandsAt index type := by
  obtain ⟨kind, entry, hentry, hstays, hkind⟩ := h
  obtain ⟨entry', hentry', hstays'⟩ := hext.entries _ _ hentry
  refine ⟨kind, entry', hentry', hstays.trans hstays', hkind.imp id ?_⟩
  rintro ⟨hrule, shape, hshape, hfits⟩
  exact ⟨hrule, shape, hshape, hfits.mono hext⟩

/-- **Soundness of drafts.**  Key terms stand in their entries.  Each declaration has an entry of
its own, and those among `types` stand in theirs. -/
structure Sound (types : Set TypeDeclaration) (draft : Draft) : Prop where
  keys : ∀ name key, draft.keyTerms.get? name = some key →
    draft.entries[key.term.value]? = some key.toKeyRequest.entry
  bounded : ∀ typeName index, draft.declared.lookup typeName = some index →
    index.value < draft.entries.size
  distinct : ∀ a b index, draft.declared.lookup a = some index →
    draft.declared.lookup b = some index → a = b
  stands : ∀ type ∈ types, ∀ index, draft.declared.lookup type.typeName = some index →
    draft.StandsAt index type

/-- In the empty draft there is nothing to be told. -/
theorem sound_empty (types : Set TypeDeclaration) : Draft.empty.Sound types where
  keys name key h := by
    rw [Draft.empty, KeyTermTable.get?_empty] at h
    cases h
  bounded _ _ h := by cases h
  distinct _ _ _ h := by cases h
  stands _ _ _ h := by cases h

/-- A draft that extends a sound one is sound if it has no other declarations, and if its other key
terms stand in their entries. -/
theorem Sound.of_extends (h : old.Sound types) (hext : old.Extends new)
    (hdeclared : new.declared = old.declared)
    (hkeys : ∀ name key, new.keyTerms.get? name = some key → old.keyTerms.get? name = some key ∨
      new.entries[key.term.value]? = some key.toKeyRequest.entry) : new.Sound types where
  keys name key hkey := by
    rcases hkeys name key hkey with hold | hnew
    · obtain ⟨entry', hentry', hstays⟩ := hext.entries _ _ (h.keys name key hold)
      rw [hentry', hstays.eq_of_maker key.toKeyRequest.not_isNodeType]
    · exact hnew
  bounded typeName index hlookup := by
    rw [hdeclared] at hlookup
    exact Nat.lt_of_lt_of_le (h.bounded typeName index hlookup) hext.size_le
  distinct a b index ha hb := by
    rw [hdeclared] at ha hb
    exact h.distinct a b index ha hb
  stands type htype index hlookup := by
    rw [hdeclared] at hlookup
    exact (h.stands type htype index hlookup).mono hext

/-- A draft leads to another if that extends it, and is sound if it is. -/
structure Leads (types : Set TypeDeclaration) (old new : Draft) : Prop where
  extension : old.Extends new
  sound : old.Sound types → new.Sound types

theorem Leads.refl (draft : Draft) : draft.Leads types draft :=
  ⟨.refl draft, id⟩

theorem Leads.trans {later : Draft} (h : old.Leads types new) (h' : new.Leads types later) :
    old.Leads types later :=
  ⟨h.extension.trans h'.extension, h'.sound ∘ h.sound⟩

/-- What is noted besides entries, declarations and key terms is of no account. -/
theorem leads_of_eq (hentries : new.entries = old.entries) (hdeclared : new.declared = old.declared)
    (hkeys : new.keyTerms = old.keyTerms) : old.Leads types new where
  extension := extends_of_eq hentries hdeclared hkeys
  sound h := by
    refine h.of_extends (extends_of_eq hentries hdeclared hkeys) hdeclared fun name key hkey => ?_
    rw [hkeys] at hkey
    exact Or.inl hkey

/-- An entry that is added makes no difference to what is declared. -/
theorem leads_pushEntry {entry : Entry} : draft.Leads types (draft.pushEntry entry) where
  extension := extends_pushEntry
  sound h := h.of_extends extends_pushEntry rfl fun _ _ hkey => Or.inl hkey

/-- A key term with the next number is added together with its entry. -/
theorem leads_pushKey (hindex : TermIndex.ofNat? draft.entries.size = some index) :
    draft.Leads types { draft.pushEntry request.entry with
      keyTerms := draft.keyTerms.push { request with term := index } } := by
  have hkeys : ∀ name key, draft.keyTerms.get? name = some key →
      (draft.keyTerms.push { request with term := index }).get? name = some key := by
    intro name key hkey
    rw [KeyTermTable.get?_push, hkey, Option.some_or]
  refine ⟨extends_of_push (fun _ _ h => h) hkeys, fun h => ?_⟩
  refine h.of_extends (extends_of_push (fun _ _ h => h) hkeys) rfl fun name key hkey => ?_
  simp only at hkey
  rw [KeyTermTable.get?_push] at hkey
  rcases Option.or_eq_some_iff.mp hkey with hkey | ⟨_, hkey⟩
  · exact Or.inl hkey
  · split at hkey
    · obtain rfl := Option.some.inj hkey
      exact Or.inr (getElem?_push_ofNat? hindex)
    · cases hkey

/-! ## Declarations under way -/

/-- Since the draft `base` a declaration has been registered, and its rule has no shape yet. -/
structure UnderWay (types : Set TypeDeclaration) (base : Draft) (index : TermIndex)
    (type : TypeDeclaration) (draft : Draft) : Prop where
  leads : base.Leads types draft
  later : base.entries.size ≤ index.value
  lookup : draft.declared.lookup type.typeName = some index
  pending : ∃ entry, draft.entries[index.value]? = some entry ∧ type.entry.Stays entry

/-- A name is told apart from those of other declarations. -/
def Tells (types : Set TypeDeclaration) (type : TypeDeclaration) : Prop :=
  ∀ other ∈ types, other.typeName = type.typeName → other = type

/-- The draft in which a declaration has got a number. -/
def declare (draft : Draft) (type : TypeDeclaration) (index : TermIndex)
    (claims : List (String × String)) : Draft :=
  { draft.pushEntry type.entry with
    claims, declared := (type.typeName, index) :: draft.declared }

section Declare

variable {claims : List (String × String)}

/-- The declaration that was added last is found. -/
theorem lookup_declare_self :
    (draft.declare type index claims).declared.lookup type.typeName = some index :=
  List.lookup_cons_self

/-- Other declarations are found as before. -/
theorem lookup_declare_of_ne {typeName : String} (h : typeName ≠ type.typeName) :
    (draft.declare type index claims).declared.lookup typeName =
      draft.declared.lookup typeName := by
  show List.lookup typeName ((type.typeName, index) :: draft.declared) = _
  rw [List.lookup_cons, beq_eq_false_iff_ne.mpr h]

/-- A draft is extended by a declaration of another type. -/
theorem extends_declare (hnew : draft.declared.lookup type.typeName = none) :
    draft.Extends (draft.declare type index claims) := by
  refine extends_of_push (fun typeName found hfound => ?_) fun _ _ h => h
  have hne : typeName ≠ type.typeName := by
    rintro rfl
    rw [hnew] at hfound
    cases hfound
  have hsame : (draft.declare type index claims).declared.lookup typeName =
      draft.declared.lookup typeName := lookup_declare_of_ne hne
  exact hsame.trans hfound

/-- With the next number, a declaration is told apart from those before it. -/
theorem Sound.declare (h : draft.Sound types) (htold : Tells types type)
    (hnew : draft.declared.lookup type.typeName = none)
    (hindex : TermIndex.ofNat? draft.entries.size = some index) :
    (draft.declare type index claims).Sound types := by
  have hvalue : index.value = draft.entries.size := Drafting.value_of_ofNat? hindex
  have hext : draft.Extends (draft.declare type index claims) := extends_declare hnew
  -- A declaration is the new one, or one from before with a smaller number.
  have hold : ∀ typeName found,
      (draft.declare type index claims).declared.lookup typeName = some found →
      typeName = type.typeName ∧ found = index ∨
        draft.declared.lookup typeName = some found ∧ found.value < index.value := by
    intro typeName found hfound
    by_cases hname : typeName = type.typeName
    · subst hname
      exact Or.inl ⟨rfl, (Option.some.inj (lookup_declare_self.symm.trans hfound)).symm⟩
    · have hfound' := (lookup_declare_of_ne hname).symm.trans hfound
      exact Or.inr ⟨hfound', hvalue ▸ h.bounded typeName found hfound'⟩
  refine ⟨?_, ?_, ?_, ?_⟩
  · intro name key hkey
    obtain ⟨entry', hentry', hstays⟩ := hext.entries _ _ (h.keys name key hkey)
    rw [hentry', hstays.eq_of_maker key.toKeyRequest.not_isNodeType]
  · intro typeName found hfound
    show found.value < (draft.entries.push type.entry).size
    rw [Array.size_push]
    rcases hold typeName found hfound with ⟨_, rfl⟩ | ⟨_, hlt⟩
    · omega
    · omega
  · intro a b found ha hb
    rcases hold a found ha with ⟨rfl, rfl⟩ | ⟨ha, hlt⟩
    · rcases hold b _ hb with ⟨rfl, _⟩ | ⟨_, hlt⟩
      · rfl
      · exact absurd hlt (Nat.lt_irrefl _)
    · rcases hold b found hb with ⟨_, rfl⟩ | ⟨hb, _⟩
      · exact absurd hlt (Nat.lt_irrefl _)
      · exact h.distinct a b found ha hb
  · intro other hmem found hfound
    rcases hold other.typeName found hfound with ⟨hname, rfl⟩ | ⟨hfound, _⟩
    · obtain rfl := htold other hmem hname
      exact ⟨_, other.entry, getElem?_push_ofNat? hindex, .refl _, Or.inl rfl⟩
    · exact (h.stands other hmem found hfound).mono hext

/-- A declaration that gets the next number is under way. -/
theorem underWay_declare (htold : Tells types type)
    (hnew : draft.declared.lookup type.typeName = none)
    (hindex : TermIndex.ofNat? draft.entries.size = some index) (claims : List (String × String)) :
    UnderWay types draft index type (draft.declare type index claims) where
  leads := ⟨extends_declare hnew, fun h => h.declare htold hnew hindex⟩
  later := Nat.le_of_eq (Drafting.value_of_ofNat? hindex).symm
  lookup := lookup_declare_self
  pending := ⟨type.entry, getElem?_push_ofNat? hindex, .refl _⟩

end Declare

/-- Other steps leave a declaration under way. -/
theorem UnderWay.step (h : UnderWay types base index type old) (hleads : old.Leads types new) :
    UnderWay types base index type new where
  leads := h.leads.trans hleads
  later := h.later
  lookup := hleads.extension.declared _ _ h.lookup
  pending := by
    obtain ⟨entry, hentry, hstays⟩ := h.pending
    obtain ⟨entry', hentry', hstays'⟩ := hleads.extension.entries _ _ hentry
    exact ⟨entry', hentry', hstays.trans hstays'⟩

/-- The entry that gets its shape. -/
theorem getElem?_withShape {entry : Entry} (h : draft.entries[index.value]? = some entry) :
    (draft.modifyTerm index (·.withShape shape)).entries[index.value]? =
      some { entry with kind := .rule (some shape) } := by
  rw [Draft.modifyTerm, Array.getElem?_modify, if_pos rfl, h]
  rfl

/-- A shape is set for one entry only. -/
theorem getElem?_withShape_of_ne {n : ℕ} (h : index.value ≠ n) :
    (draft.modifyTerm index (·.withShape shape)).entries[n]? = draft.entries[n]? := by
  rw [Draft.modifyTerm, Array.getElem?_modify, if_neg h]

/-- A rule that gets its shape is no key term, before and after. -/
theorem getElem?_withShape_key {entry found : Entry} {n : ℕ} {text : String}
    (hentry : draft.entries[index.value]? = some entry) (hpending : entry.kind = .rule none)
    (hkey : found.kind = .key text) :
    (draft.modifyTerm index (·.withShape shape)).entries[n]? = some found ↔
      draft.entries[n]? = some found := by
  by_cases hn : index.value = n
  · subst hn
    rw [getElem?_withShape hentry, hentry, Option.some_inj, Option.some_inj]
    constructor
    · rintro rfl
      cases hkey
    · rintro rfl
      cases hpending.symm.trans hkey
  · rw [getElem?_withShape_of_ne hn]

/-- What fits is a matter of the key terms only. -/
theorem Fits.modifyTerm {change : Term → Term} (h : draft.Fits shape type) :
    (draft.modifyTerm index change).Fits shape type := by
  cases type with
  | node type => trivial
  | identifier type => exact h
  | literal type => exact h
  | constant type => exact h
  | operator type => exact h

/-- Soundness is kept when the entry of a declaration gets a shape that fits. -/
theorem Sound.withShape {entry : Entry} (h : draft.Sound types) (htold : Tells types type)
    (hlookup : draft.declared.lookup type.typeName = some index)
    (hentry : draft.entries[index.value]? = some entry) (hstays : type.entry.Stays entry)
    (hrule : type.entry.kind = .rule none) (hfits : draft.Fits shape type) :
    (draft.modifyTerm index (·.withShape shape)).Sound types := by
  refine ⟨?_, ?_, h.distinct, ?_⟩
  · -- The entry of a key term is no rule, so it is another one.
    intro name key hkey
    have hfound := h.keys name key hkey
    by_cases hterm : index.value = key.term.value
    · rw [← hterm, hentry] at hfound
      have hkind : entry.kind = .rule none := hstays.kind_eq.trans hrule
      rw [Option.some.inj hfound] at hkind
      cases hkind
    · rw [getElem?_withShape_of_ne hterm, hfound]
  · intro typeName found hfound
    have hlt := h.bounded typeName found hfound
    rwa [Draft.modifyTerm, Array.size_modify]
  · intro other hmem found hfound
    by_cases hsame : index = found
    · subst hsame
      obtain rfl := htold other hmem (h.distinct _ _ _ hfound hlookup)
      refine ⟨.rule (some shape), _, getElem?_withShape hentry, ?_,
        Or.inr ⟨hrule, shape, rfl, hfits.modifyTerm⟩⟩
      rcases hstays with rfl | ⟨hnode, flags, rfl⟩
      · exact .refl _
      · exact Or.inr ⟨hnode, flags, rfl⟩
    · obtain ⟨kind, entry', hentry', hstays', hkind⟩ := h.stands other hmem found hfound
      have hvalue : index.value ≠ found.value := fun heq => hsame (Drafting.eq_of_value heq)
      refine ⟨kind, entry', (getElem?_withShape_of_ne hvalue).trans hentry', hstays', ?_⟩
      refine hkind.imp id ?_
      rintro ⟨hrule', shape', hshape', hfits'⟩
      exact ⟨hrule', shape', hshape', hfits'.modifyTerm⟩

/-- A declaration under way is completed by a shape that fits. -/
theorem UnderWay.withShape (h : UnderWay types base index type draft) (htold : Tells types type)
    (hrule : type.entry.kind = .rule none) (hfits : draft.Fits shape type) :
    base.Leads types (draft.modifyTerm index (·.withShape shape)) := by
  obtain ⟨entry, hentry, hstays⟩ := h.pending
  refine ⟨h.leads.extension.modifyTerm h.later _, fun hbase => ?_⟩
  exact (h.leads.sound hbase).withShape htold h.lookup hentry hstays hrule hfits

end Draft

end TypedGrammar
