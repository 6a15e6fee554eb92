import Mathlib.Order.Basic
import TypedGrammar.Proofs.Draft.Growth
import TypedGrammar.Proofs.Node.Likeness
import TypedGrammar.Proofs.Shape.Likeness

/-!
# Likeness of drafts

Two drafts are alike, as their terms are related, if they know the same declarations and key terms
by related terms, and if the entries of related terms are alike: the same, or rules with like shapes
whose nodes are made in the same way.  Drafts that are alike may number their terms differently, and
one of them may have several terms where the other one has one.
-/

namespace TypedGrammar

/-- The relation that also holds of `i` and `j`. -/
def relating (R : TermIndex → TermIndex → Prop) (i j : TermIndex) : TermIndex → TermIndex → Prop :=
  fun a b => R a b ∨ a = i ∧ b = j

theorem le_relating (R : TermIndex → TermIndex → Prop) (i j : TermIndex) : R ≤ relating R i j :=
  fun _ _ h => Or.inl h

theorem relating_self (R : TermIndex → TermIndex → Prop) (i j : TermIndex) : relating R i j i j :=
  Or.inr ⟨rfl, rfl⟩

/-- Two entries are alike if they are the same and have no shape, or if they are rules with like
shapes, the same flags, and a maker that ignores names. -/
inductive Entry.Alike (R : TermIndex → TermIndex → Prop) : Entry → Entry → Prop
  | same {entry : Entry} : entry.shape? = none → Entry.Alike R entry entry
  | rule {a b : Entry} {s t : Shape} : a.kind = .rule (some s) → b.kind = .rule (some t) →
      s.Alike R t → a.flags = b.flags → a.maker = b.maker →
      (∀ maker, a.maker = some maker → maker.IgnoresNames) → Entry.Alike R a b

/-- Two key terms are alike if the same was asked for, and their terms are related. -/
structure KeyTerm.Alike (R : TermIndex → TermIndex → Prop) (a b : KeyTerm) : Prop where
  request : a.toKeyRequest = b.toKeyRequest
  term : R a.term b.term

section Monotonicity

variable {R R' : TermIndex → TermIndex → Prop} (hR : R ≤ R')

include hR

theorem Entry.Alike.mono {a b : Entry} (h : Entry.Alike R a b) : Entry.Alike R' a b := by
  cases h with
  | same hshape => exact .same hshape
  | rule ha hb hlike hflags hmaker hignores =>
    exact .rule ha hb (hlike.mono hR) hflags hmaker hignores

theorem KeyTerm.Alike.mono {a b : KeyTerm} (h : KeyTerm.Alike R a b) : KeyTerm.Alike R' a b :=
  ⟨h.request, hR _ _ h.term⟩

end Monotonicity

/-- What is related at most once stays related under a larger relation. -/
theorem optionRel_imp {α : Type} {S S' : α → α → Prop} {x y : Option α}
    (h : Option.Rel S x y) (hS : ∀ a b, S a b → S' a b) : Option.Rel S' x y := by
  cases h with
  | none => exact .none
  | some hab => exact .some (hS _ _ hab)

/-! ## Key terms -/

namespace KeyTermTable

variable {R : TermIndex → TermIndex → Prop} {a b : KeyTermTable}

/-- Two tables are alike if their key terms are, one by one. -/
def Alike (R : TermIndex → TermIndex → Prop) (a b : KeyTermTable) : Prop :=
  List.Forall₂ (KeyTerm.Alike R) a.records.toList b.records.toList

/-- Of like tables, like key terms have a name. -/
theorem Alike.get? (h : Alike R a b) (name : String) :
    Option.Rel (KeyTerm.Alike R) (a.get? name) (b.get? name) := by
  rw [get?_eq_find?, get?_eq_find?, ← Array.find?_toList, ← Array.find?_toList]
  have hrecords : List.Forall₂ (KeyTerm.Alike R) a.records.toList b.records.toList := h
  generalize a.records.toList = as, b.records.toList = bs at hrecords
  induction hrecords with
  | nil => exact .none
  | @cons key key' rest rest' hkey _ ih =>
    have hname : key.name = key'.name := congrArg KeyRequest.name hkey.request
    rw [List.find?_cons, List.find?_cons, hname]
    cases decide (key'.name = name) with
    | true => exact .some hkey
    | false => exact ih

/-- A request has like answers in like tables. -/
inductive AnswersAlike (R : TermIndex → TermIndex → Prop) :
    Except Error (Option TermIndex) → Except Error (Option TermIndex) → Prop
  | unknown : AnswersAlike R (.ok none) (.ok none)
  | found {i j : TermIndex} : R i j → AnswersAlike R (.ok (some i)) (.ok (some j))
  | refused {e : Error} : AnswersAlike R (.error e) (.error e)

/-- An answer depends on the key term of the name. -/
theorem answersAlike_of_get? {request : KeyRequest}
    (hfound : Option.Rel (KeyTerm.Alike R) (a.get? request.name) (b.get? request.name)) :
    AnswersAlike R (a.lookup request) (b.lookup request) := by
  unfold KeyTermTable.lookup
  generalize a.get? request.name = found, b.get? request.name = found' at hfound
  cases hfound with
  | none => exact .unknown
  | @some key key' hkey =>
    simp only
    rw [hkey.request]
    split
    · exact .found hkey.term
    · exact .refused

/-- The same request has related answers in like tables. -/
theorem Alike.lookup (h : Alike R a b) (request : KeyRequest) :
    AnswersAlike R (a.lookup request) (b.lookup request) :=
  answersAlike_of_get? (h.get? request.name)

theorem Alike.push {key key' : KeyTerm} (h : Alike R a b) (hkey : KeyTerm.Alike R key key') :
    Alike R (a.push key) (b.push key') := by
  show List.Forall₂ _ (a.records.push key).toList (b.records.push key').toList
  rw [Array.toList_push, Array.toList_push]
  exact List.rel_append h (.cons hkey .nil)

end KeyTermTable

/-! ## Drafts -/

namespace Draft

variable {R R' : TermIndex → TermIndex → Prop} {a b a' b' : Draft} {i j p q : TermIndex}
  {entry entry' : Entry} {s t : Shape} {typeName : String} {request request' : Request}

/-- The entries of two terms are alike. -/
def AlikeAt (R : TermIndex → TermIndex → Prop) (a b : Draft) (i j : TermIndex) : Prop :=
  ∃ entry entry', a.entries[i.value]? = some entry ∧ b.entries[j.value]? = some entry' ∧
    Entry.Alike R entry entry'

/-- **Likeness of drafts.**  The drafts are consistent and exact.  Related terms have like entries,
and stand for the same declaration, if for any; declarations and key terms have related terms. -/
structure Alike (R : TermIndex → TermIndex → Prop) (a b : Draft) : Prop where
  entries : ∀ i j, R i j → AlikeAt R a b i j
  sole : ∀ i j, R i j → ∀ typeName,
    a.declared.lookup typeName = some i ↔ b.declared.lookup typeName = some j
  declared : ∀ typeName,
    Option.Rel R (a.declared.lookup typeName) (b.declared.lookup typeName)
  keyTerms : a.keyTerms.Alike R b.keyTerms
  claims : a.claims = b.claims
  left : a.IsConsistent ∧ a.IsExact
  right : b.IsConsistent ∧ b.IsExact

/-- The empty draft is like itself, and no terms are related. -/
theorem alike_empty : Alike (fun _ _ => False) .empty .empty where
  entries _ _ h := h.elim
  sole _ _ h := h.elim
  declared _ := .none
  keyTerms := .nil
  claims := rfl
  left := ⟨isConsistent_empty, isExact_empty⟩
  right := ⟨isConsistent_empty, isExact_empty⟩

/-- Terms that are alike have numbers in their drafts. -/
theorem AlikeAt.value_lt (h : AlikeAt R a b i j) :
    i.value < a.entries.size ∧ j.value < b.entries.size := by
  obtain ⟨_, _, hi, hj, _⟩ := h
  exact ⟨(Array.getElem?_eq_some_iff.mp hi).1, (Array.getElem?_eq_some_iff.mp hj).1⟩

/-- Like entries are still alike when drafts grow and more terms are related. -/
theorem AlikeAt.grow (h : AlikeAt R a b i j) (hR : R ≤ R') (ha : a.Grows a') (hb : b.Grows b') :
    AlikeAt R' a' b' i j := by
  obtain ⟨entry, entry', hi, hj, hlike⟩ := h
  exact ⟨entry, entry', ha.entries _ _ hi, hb.entries _ _ hj, hlike.mono hR⟩

/-- A draft that grows stays consistent and exact. -/
theorem Grows.settled (h : a.Grows a') (ha : a.IsConsistent ∧ a.IsExact) :
    a'.IsConsistent ∧ a'.IsExact :=
  ⟨h.consistent ha.1, h.exact ha.1 ha.2⟩

/-- No declaration stands for the term. -/
def IsUndeclared (draft : Draft) (index : TermIndex) : Prop :=
  ∀ typeName, draft.declared.lookup typeName ≠ some index

/-- What is asked for otherwise is not declared. -/
theorem IsExact.isUndeclared (h : a.IsExact) (hknown : a.known? request = some i)
    (hrequest : ∀ typeName, request ≠ .declared typeName) : a.IsUndeclared i := by
  intro typeName hlookup
  exact hrequest typeName (h.distinct request (.declared typeName) i hknown hlookup)

/-- A number that is new is not declared yet. -/
theorem IsConsistent.isUndeclared (h : a.IsConsistent) (hnew : a.entries.size ≤ i.value) :
    a.IsUndeclared i := by
  intro typeName hlookup
  have hknown : a.known? (.declared typeName) = some i := hlookup
  exact absurd (h.value_lt hknown) (Nat.not_lt.mpr hnew)

/-- A term that is new has not been declared. -/
theorem Gains.isUndeclared (h : Gains request i entry a a') (ha : a.IsConsistent) :
    a.IsUndeclared i := by
  intro typeName hlookup
  have hknown : a.known? (.declared typeName) = some i := hlookup
  exact h.not_known ha hknown

/-! ### Entries that nothing is declared as -/

/-- Declarations, claims and key terms are the same. -/
structure KeepsNames (old new : Draft) : Prop where
  declared : new.declared = old.declared
  claims : new.claims = old.claims
  keyTerms : new.keyTerms = old.keyTerms

/-- Other entries leave drafts alike. -/
theorem Alike.grow (h : Alike R a b) (ha : a.Grows a') (hb : b.Grows b') (hnames : a.KeepsNames a')
    (hnames' : b.KeepsNames b') : Alike R a' b' where
  entries i j hij := (h.entries i j hij).grow (le_refl R) ha hb
  sole i j hij := by
    rw [hnames.declared, hnames'.declared]
    exact h.sole i j hij
  declared := by
    rw [hnames.declared, hnames'.declared]
    exact h.declared
  keyTerms := by
    rw [hnames.keyTerms, hnames'.keyTerms]
    exact h.keyTerms
  claims := by
    rw [hnames.claims, hnames'.claims]
    exact h.claims
  left := ha.settled h.left
  right := hb.settled h.right

/-- More terms may be related, if their entries are alike and they are not declared. -/
theorem Alike.relate (h : Alike R a b) (hentries : AlikeAt R a b i j) (hi : a.IsUndeclared i)
    (hj : b.IsUndeclared j) : Alike (relating R i j) a b where
  entries p q hpq := by
    have hlike : AlikeAt R a b p q := by
      rcases hpq with hpq | ⟨rfl, rfl⟩
      · exact h.entries p q hpq
      · exact hentries
    exact hlike.grow (le_relating R i j) (.refl a) (.refl b)
  sole p q hpq typeName := by
    rcases hpq with hpq | ⟨rfl, rfl⟩
    · exact h.sole p q hpq typeName
    · exact iff_of_false (hi typeName) (hj typeName)
  declared typeName := optionRel_imp (h.declared typeName) (le_relating R i j)
  keyTerms := h.keyTerms.imp fun _ _ hkey => hkey.mono (le_relating R i j)
  claims := h.claims
  left := h.left
  right := h.right

/-! ### Composites -/

/-- Rules with like shapes, and the same flags and maker. -/
theorem alikeAt_rule {flags : Flags} {maker : Option Maker}
    (hignores : ∀ m, maker = some m → m.IgnoresNames)
    (hi : a.entries[i.value]? = some entry) (hj : b.entries[j.value]? = some entry')
    (hkind : entry.kind = .rule (some s)) (hkind' : entry'.kind = .rule (some t))
    (hlike : s.Alike R t) (hflags : entry.flags = flags) (hflags' : entry'.flags = flags)
    (hmaker : entry.maker = maker) (hmaker' : entry'.maker = maker) : AlikeAt R a b i j :=
  ⟨entry, entry', hi, hj, .rule hkind hkind' hlike (hflags.trans hflags'.symm)
    (hmaker.trans hmaker'.symm) fun m hm => hignores m (hmaker.symm.trans hm)⟩

/-- Terms that answer requests for composites are related, if their entries are alike. -/
theorem Alike.relateKnown (h : Alike R a b) (hentries : AlikeAt R a b i j)
    (hi : a.known? request = some i) (hj : b.known? request' = some j)
    (hrequest : ∀ typeName, request ≠ .declared typeName)
    (hrequest' : ∀ typeName, request' ≠ .declared typeName) :
    ∃ R', R ≤ R' ∧ Alike R' a b ∧ R' i j :=
  ⟨relating R i j, le_relating R i j, h.relate hentries (h.left.2.isUndeclared hi hrequest)
    (h.right.2.isUndeclared hj hrequest'), relating_self R i j⟩

/-- Terms of optional parts are related, if these are alike. -/
theorem Alike.relate_optional (h : Alike R a b) (hlike : s.Alike R t)
    (hempty : s.alternatives = [] ↔ t.alternatives = []) (hi : a.known? (.optional s) = some i)
    (hj : b.known? (.optional t) = some j) : ∃ R', R ≤ R' ∧ Alike R' a b ∧ R' i j := by
  obtain ⟨entry, hentry, hmaker, hkind⟩ := h.left.1.known _ _ hi
  obtain ⟨entry', hentry', hmaker', hkind'⟩ := h.right.1.known _ _ hj
  have hflags : entry.flags = .none := h.left.2.flags _ _ _ hi hentry
  have hflags' : entry'.flags = .none := h.right.2.flags _ _ _ hj hentry'
  have hshape : s.orEmpty.Alike R t.orEmpty :=
    Shape.alike_or hlike Shape.alike_empty hempty Iff.rfl
  have hignores : ∀ m, some .optional = some m → Maker.IgnoresNames m := fun m hm =>
    Option.some.inj hm ▸ Maker.ignoresNames_optional
  exact h.relateKnown (alikeAt_rule hignores hentry hentry' hkind hkind' hshape hflags hflags' hmaker
    hmaker') hi hj nofun nofun

/-- Shapes that are alike, and both single terms or not, are alike when they are grouped. -/
theorem Alike.relate_group {item item' : Shape} (h : Alike R a b) (hlike : s.Alike R t)
    (hsingle : s.term?.isSome = t.term?.isSome) (hs : a.IsGrouped s item)
    (ht : b.IsGrouped t item') : ∃ R', R ≤ R' ∧ Alike R' a b ∧ item.Alike R' item' := by
  rcases hs with ⟨hterm, rfl⟩ | ⟨hterm, i, hi, rfl⟩
  · rcases ht with ⟨_, rfl⟩ | ⟨hterm', _⟩
    · exact ⟨R, le_refl R, h, hlike⟩
    · rw [hterm, hterm'] at hsingle
      cases hsingle
  · rcases ht with ⟨hterm', _⟩ | ⟨_, j, hj, rfl⟩
    · rw [hterm, hterm'] at hsingle
      cases hsingle
    · obtain ⟨entry, hentry, hmaker, hkind⟩ := h.left.1.known _ _ hi
      obtain ⟨entry', hentry', hmaker', hkind'⟩ := h.right.1.known _ _ hj
      have hflags : entry.flags = .none := h.left.2.flags _ _ _ hi hentry
      have hflags' : entry'.flags = .none := h.right.2.flags _ _ _ hj hentry'
      have hignores : ∀ m, none = some m → Maker.IgnoresNames m := fun _ hm => nomatch hm
      obtain ⟨R', hR, halike, hij⟩ := h.relateKnown (alikeAt_rule hignores hentry hentry' hkind
        hkind' hlike hflags hflags' hmaker hmaker') hi hj nofun nofun
      exact ⟨R', hR, halike, Shape.alike_term hij⟩

/-- Repetitions of like items are alike, with like delimiters or without any. -/
theorem alike_repetition {item item' : Shape} {delimiter delimiter' : Option Shape}
    (bounds : Bounds) (hitem : item.Alike R item')
    (hdelimiter : Option.Rel (Shape.Alike R) delimiter delimiter') :
    (Shape.repetition item delimiter bounds).Alike R (.repetition item' delimiter' bounds) := by
  cases hdelimiter with
  | none => exact Shape.alike_repeated hitem
  | some hdelimiter => exact Shape.alike_separated hitem hdelimiter

/-- Terms of lists are related, if their items and delimiters are alike. -/
theorem Alike.relate_list {delimiter delimiter' : Option Shape} {element : ValueType}
    {bounds : Bounds} (h : Alike R a b) (hlike : s.Alike R t)
    (hsingle : s.term?.isSome = t.term?.isSome)
    (hdelimiter : Option.Rel (Shape.Alike R) delimiter delimiter')
    (hi : a.known? (.list ⟨element, s, delimiter, bounds⟩) = some i)
    (hj : b.known? (.list ⟨element, t, delimiter', bounds⟩) = some j) :
    ∃ R', R ≤ R' ∧ Alike R' a b ∧ R' i j := by
  obtain ⟨entry, hentry, hmaker, item, hitem, hkind⟩ := h.left.1.known _ _ hi
  obtain ⟨entry', hentry', hmaker', item', hitem', hkind'⟩ := h.right.1.known _ _ hj
  have hflags : entry.flags = .ofList [.list] := h.left.2.flags _ _ _ hi hentry
  have hflags' : entry'.flags = .ofList [.list] := h.right.2.flags _ _ _ hj hentry'
  obtain ⟨R₁, hR₁, h₁, hitems⟩ := h.relate_group hlike hsingle hitem hitem'
  have hdelimiter₁ : Option.Rel (Shape.Alike R₁) delimiter delimiter' :=
    optionRel_imp hdelimiter fun _ _ hlike => hlike.mono hR₁
  have hignores : ∀ m, some (.list element) = some m → Maker.IgnoresNames m := fun m hm =>
    Option.some.inj hm ▸ Maker.ignoresNames_list element
  obtain ⟨R₂, hR₂, h₂, hij⟩ := h₁.relateKnown (alikeAt_rule hignores hentry hentry' hkind hkind'
    (alike_repetition bounds hitems hdelimiter₁) hflags hflags' hmaker hmaker') hi hj nofun nofun
  exact ⟨R₂, le_trans hR₁ hR₂, h₂, hij⟩

/-- Key terms of one name are related. -/
theorem Alike.of_known_key {name : String} (h : Alike R a b) (hi : a.known? (.key name) = some i)
    (hj : b.known? (.key name) = some j) : R i j := by
  have hkeys := h.keyTerms.get? name
  obtain ⟨key, hkey, rfl⟩ := Option.map_eq_some_iff.mp hi
  obtain ⟨key', hkey', rfl⟩ := Option.map_eq_some_iff.mp hj
  rw [hkey, hkey'] at hkeys
  cases hkeys with
  | some hlike => exact hlike.term

/-- Terms of braces are related, if what is between the same symbols is alike. -/
theorem Alike.relate_braces {opening closing : String} {omissible : Bool} (h : Alike R a b)
    (hlike : s.Alike R t) (hsingle : s.term?.isSome = t.term?.isSome)
    (hempty : omissible = true → (s.alternatives = [] ↔ t.alternatives = []))
    (hi : a.known? (.braces ⟨opening, s, closing, omissible⟩) = some i)
    (hj : b.known? (.braces ⟨opening, t, closing, omissible⟩) = some j) :
    ∃ R', R ≤ R' ∧ Alike R' a b ∧ R' i j := by
  obtain ⟨entry, hentry, hmaker, o, c, item, ho, hc, hitem, hkind⟩ := h.left.1.known _ _ hi
  obtain ⟨entry', hentry', hmaker', o', c', item', ho', hc', hitem', hkind'⟩ := h.right.1.known _ _ hj
  obtain ⟨hflags, _⟩ := h.left.2.flags _ _ _ hi hentry
  obtain ⟨hflags', _⟩ := h.right.2.flags _ _ _ hj hentry'
  obtain ⟨R₁, hR₁, h₁, hitems⟩ := h.relate_group hlike hsingle hitem hitem'
  have hopen : R₁ o o' := h₁.of_known_key ho ho'
  have hclose : R₁ c c' := h₁.of_known_key hc hc'
  have hbracketed : (Shape.term o ++ item ++ .term c).Alike R₁ (.term o' ++ item' ++ .term c') :=
    Shape.alike_append (Shape.alike_append (Shape.alike_term hopen) hitems)
      (Shape.alike_term hclose)
  have hshape : (if omissible then .term o ++ item ++ .term c ||| s
      else .term o ++ item ++ .term c : Shape).Alike R₁
        (if omissible then .term o' ++ item' ++ .term c' ||| t
          else .term o' ++ item' ++ .term c' : Shape) := by
    cases omissible with
    | false => exact hbracketed
    | true =>
      exact Shape.alike_or hbracketed (hlike.mono hR₁) (iff_of_false
        (Shape.alternatives_append_term _ c) (Shape.alternatives_append_term _ c')) (hempty rfl)
  have hignores : ∀ m, some .brace = some m → Maker.IgnoresNames m := fun m hm =>
    Option.some.inj hm ▸ Maker.ignoresNames_brace
  obtain ⟨R₂, hR₂, h₂, hij⟩ := h₁.relateKnown (alikeAt_rule hignores hentry hentry' hkind hkind'
    hshape hflags hflags' hmaker hmaker') hi hj nofun nofun
  exact ⟨R₂, le_trans hR₁ hR₂, h₂, hij⟩

/-! ### New key terms and declarations -/

/-- Entries that get the next numbers are alike if they are the same and have no shape. -/
theorem alikeAt_gains (hi : Gains request i entry a a') (hj : Gains request j entry b b')
    (hshape : entry.shape? = none) : AlikeAt R a' b' i j :=
  ⟨entry, entry, by rw [hi.entries, getElem?_push_ofNat? hi.number],
    by rw [hj.entries, getElem?_push_ofNat? hj.number], .same hshape⟩

/-- Terms that two drafts gain for the same request are related from then on. -/
theorem Alike.entries_gains (h : Alike R a b) (hi : Gains request i entry a a')
    (hj : Gains request j entry b b') (hshape : entry.shape? = none) :
    ∀ p q, relating R i j p q → AlikeAt (relating R i j) a' b' p q := by
  intro p q hpq
  rcases hpq with hpq | ⟨rfl, rfl⟩
  · exact (h.entries p q hpq).grow (le_relating R i j) hi.grows hj.grows
  · exact alikeAt_gains hi hj hshape

/-- Both drafts get the same key term. -/
theorem Alike.gainKey {key : KeyRequest} (h : Alike R a b)
    (hi : Gains request i key.entry a a') (hj : Gains request j key.entry b b')
    (hdeclared : a'.declared = a.declared) (hdeclared' : b'.declared = b.declared)
    (hclaims : a'.claims = a.claims) (hclaims' : b'.claims = b.claims)
    (hkeys : a'.keyTerms = a.keyTerms.push { key with term := i })
    (hkeys' : b'.keyTerms = b.keyTerms.push { key with term := j }) :
    Alike (relating R i j) a' b' where
  entries := h.entries_gains hi hj rfl
  sole p q hpq typeName := by
    rw [hdeclared, hdeclared']
    rcases hpq with hpq | ⟨rfl, rfl⟩
    · exact h.sole p q hpq typeName
    · exact iff_of_false (hi.isUndeclared h.left.1 typeName)
        (hj.isUndeclared h.right.1 typeName)
  declared typeName := by
    rw [hdeclared, hdeclared']
    exact optionRel_imp (h.declared typeName) (le_relating R i j)
  keyTerms := by
    rw [hkeys, hkeys']
    exact KeyTermTable.Alike.push (h.keyTerms.imp fun _ _ hkey => hkey.mono (le_relating R i j))
      ⟨rfl, relating_self R i j⟩
  claims := by rw [hclaims, hclaims', h.claims]
  left := hi.grows.settled h.left
  right := hj.grows.settled h.right

/-- Both drafts get the same declaration. -/
theorem Alike.gainDeclared (h : Alike R a b) (hi : Gains (.declared typeName) i entry a a')
    (hj : Gains (.declared typeName) j entry b b') (hshape : entry.shape? = none)
    (hdeclared : a'.declared = (typeName, i) :: a.declared)
    (hdeclared' : b'.declared = (typeName, j) :: b.declared)
    (hclaims : a'.claims = b'.claims) (hkeys : a'.keyTerms = a.keyTerms)
    (hkeys' : b'.keyTerms = b.keyTerms) : Alike (relating R i j) a' b' where
  entries := h.entries_gains hi hj hshape
  sole p q hpq other := by
    rw [hdeclared, hdeclared', List.lookup_cons, List.lookup_cons]
    rcases hpq with hpq | ⟨rfl, rfl⟩
    · obtain ⟨hp, hq⟩ := (h.entries p q hpq).value_lt
      split
      · -- The new terms have other numbers than those that were related before.
        refine iff_of_false (fun heq => ?_) fun heq => ?_
        · rw [← Option.some.inj heq, Drafting.value_of_ofNat? hi.number] at hp
          exact Nat.lt_irrefl _ hp
        · rw [← Option.some.inj heq, Drafting.value_of_ofNat? hj.number] at hq
          exact Nat.lt_irrefl _ hq
      · exact h.sole p q hpq other
    · split
      · exact iff_of_true rfl rfl
      · exact iff_of_false (hi.isUndeclared h.left.1 other)
          (hj.isUndeclared h.right.1 other)
  declared other := by
    rw [hdeclared, hdeclared', List.lookup_cons, List.lookup_cons]
    split
    · exact .some (relating_self R i j)
    · exact optionRel_imp (h.declared other) (le_relating R i j)
  keyTerms := by
    rw [hkeys, hkeys']
    exact h.keyTerms.imp fun _ _ hkey => hkey.mono (le_relating R i j)
  claims := hclaims
  left := hi.grows.settled h.left
  right := hj.grows.settled h.right

/-! ### Declarations that are completed -/

/-- The terms of one declaration are related. -/
theorem Alike.of_declared (h : Alike R a b) (hi : a.declared.lookup typeName = some i)
    (hj : b.declared.lookup typeName = some j) : R i j := by
  have hdeclared := h.declared typeName
  rw [hi, hj] at hdeclared
  cases hdeclared with
  | some hij => exact hij

/-- Of related terms, if one is declared, the other one is known by the same declaration, and
neither is related to any other term. -/
theorem Alike.eq_iff (h : Alike R a b) (hi : a.declared.lookup typeName = some i)
    (hj : b.declared.lookup typeName = some j) (hpq : R p q) : p = i ↔ q = j := by
  have hsole := h.sole p q hpq typeName
  constructor
  · rintro rfl
    exact (Option.some.inj (hj.symm.trans (hsole.mp hi))).symm
  · rintro rfl
    exact (Option.some.inj (hi.symm.trans (hsole.mpr hj))).symm

/-- The entry of an index after a change of a term. -/
theorem getElem?_modifyTerm {draft : Draft} {index found : TermIndex} (change : Term → Term)
    (h : draft.entries[found.value]? = some entry) :
    (draft.modifyTerm index change).entries[found.value]? =
      some (if found = index then { entry with toTerm := change entry.toTerm } else entry) := by
  rw [Draft.modifyTerm, Array.getElem?_modify, h]
  by_cases heq : found = index
  · rw [heq, if_pos rfl, if_pos rfl]
    rfl
  · have hvalue : index.value ≠ found.value := fun hvalue =>
      heq (Drafting.eq_of_value hvalue).symm
    rw [if_neg hvalue, if_neg heq]

/-- Two drafts stay alike when the entries of one declaration are changed into like ones. -/
theorem Alike.modifyTerm {change change' : Term → Term} (h : Alike R a b)
    (hi : a.declared.lookup typeName = some i) (hj : b.declared.lookup typeName = some j)
    (hchange : ∀ entry entry', a.entries[i.value]? = some entry →
      b.entries[j.value]? = some entry' → Entry.Alike R entry entry' →
        Entry.Alike R { entry with toTerm := change entry.toTerm }
          { entry' with toTerm := change' entry'.toTerm })
    (hleft : (a.modifyTerm i change).IsConsistent ∧ (a.modifyTerm i change).IsExact)
    (hright : (b.modifyTerm j change').IsConsistent ∧ (b.modifyTerm j change').IsExact) :
    Alike R (a.modifyTerm i change) (b.modifyTerm j change') where
  entries p q hpq := by
    obtain ⟨entry, entry', hp, hq, hlike⟩ := h.entries p q hpq
    refine ⟨_, _, getElem?_modifyTerm change hp, getElem?_modifyTerm change' hq, ?_⟩
    by_cases hpi : p = i
    · have hqj : q = j := (h.eq_iff hi hj hpq).mp hpi
      rw [if_pos hpi, if_pos hqj]
      subst hpi hqj
      exact hchange entry entry' hp hq hlike
    · have hqj : q ≠ j := mt (h.eq_iff hi hj hpq).mpr hpi
      rwa [if_neg hpi, if_neg hqj]
  sole := h.sole
  declared := h.declared
  keyTerms := h.keyTerms
  claims := h.claims
  left := hleft
  right := hright

/-- The rule of a declaration gets like shapes in both drafts. -/
theorem Alike.withShape (h : Alike R a b) (hi : a.declared.lookup typeName = some i)
    (hj : b.declared.lookup typeName = some j) (hentry : a.entries[i.value]? = some entry)
    (hpending : entry.kind = .rule none)
    (hmaker : ∀ maker, entry.maker = some maker → maker.IgnoresNames) (hlike : s.Alike R t) :
    Alike R (a.modifyTerm i (·.withShape s)) (b.modifyTerm j (·.withShape t)) := by
  have hij : R i j := h.of_declared hi hj
  -- An entry that has no shape is like itself alone.
  obtain ⟨first, second, hfirst, hsecond, halike⟩ := h.entries i j hij
  obtain rfl := Option.some.inj (hentry.symm.trans hfirst)
  have hsame : second = entry := by
    cases halike with
    | same _ => rfl
    | rule hrule _ _ _ _ _ =>
      rw [hpending] at hrule
      cases hrule
  subst hsame
  refine h.modifyTerm hi hj ?_ ⟨h.left.1.withShape hentry hpending, h.left.2.modifyTerm fun _ => rfl⟩
    ⟨h.right.1.withShape hsecond hpending, h.right.2.modifyTerm fun _ => rfl⟩
  intro first last hfirst hlast _
  obtain rfl := Option.some.inj (hentry.symm.trans hfirst)
  obtain rfl := Option.some.inj (hsecond.symm.trans hlast)
  exact .rule rfl rfl hlike rfl rfl hmaker

/-- The flags of a declaration are changed in both drafts. -/
theorem Alike.withFlags (h : Alike R a b) (hi : a.declared.lookup typeName = some i)
    (hj : b.declared.lookup typeName = some j) (change : Flags → Flags) :
    Alike R (a.modifyTerm i fun term => { term with flags := change term.flags })
      (b.modifyTerm j fun term => { term with flags := change term.flags }) := by
  refine h.modifyTerm hi hj ?_ ⟨h.left.1.withFlags change, h.left.2.withFlags hi change⟩
    ⟨h.right.1.withFlags change, h.right.2.withFlags hj change⟩
  intro entry entry' _ _ hlike
  cases hlike with
  | same hshape => exact .same hshape
  | rule ha hb hlike hflags hmaker hignores =>
    exact .rule ha hb hlike (congrArg change hflags) hmaker hignores

end Draft

end TypedGrammar
