import Mathlib.Logic.Relator
import TypedGrammar.Proofs.Draft.Likeness
import TypedGrammar.Proofs.Shape.Renaming

/-!
# Renamed drafts

Two drafts may differ only in the order in which terms were registered: the terms are related one to
one, and the tables of one draft become those of the other one when each term is exchanged for the
related one.  What the entries are like does not matter, except for those that still wait for their
shapes.
-/

namespace TypedGrammar

/-! ## Tables -/

/-- Entry by entry, `K` holds of the keys of two tables, and the terms are related. -/
def TableRenames {α β : Type} (K : α → β → Prop) (R : TermIndex → TermIndex → Prop)
    (xs : List (α × TermIndex)) (ys : List (β × TermIndex)) : Prop :=
  List.Forall₂ (fun x y => K x.1 y.1 ∧ R x.2 y.2) xs ys

section Tables

variable {α : Type} {K K' K'' : α → α → Prop} {R R' : TermIndex → TermIndex → Prop}
  {xs ys zs : List (α × TermIndex)} {k k' : α}

/-- Under keys that correspond, related terms are found. -/
theorem TableRenames.lookup [DecidableEq α] (hK : Relator.BiUnique K) (h : TableRenames K R xs ys)
    (hk : K k k') : Option.Rel R (xs.lookup k) (ys.lookup k') := by
  induction h with
  | nil => exact .none
  | @cons x y xs ys hxy _ ih =>
    obtain ⟨hkeys, hterms⟩ := hxy
    rw [List.lookup_cons, List.lookup_cons]
    by_cases hfirst : k = x.1
    · have hsecond : k' = y.1 := hK.2 (hfirst ▸ hk) hkeys
      rw [beq_iff_eq.mpr hfirst, beq_iff_eq.mpr hsecond]
      exact .some hterms
    · have hsecond : k' ≠ y.1 := fun heq => hfirst (hK.1 (heq ▸ hk) hkeys)
      rw [beq_eq_false_iff_ne.mpr hfirst, beq_eq_false_iff_ne.mpr hsecond]
      exact ih

/-- Tables that correspond still do in wider relations. -/
theorem TableRenames.imp (h : TableRenames K R xs ys) (hK : K ≤ K') (hR : R ≤ R') :
    TableRenames K' R' xs ys :=
  List.Forall₂.imp (fun _ _ hxy => ⟨hK _ _ hxy.1, hR _ _ hxy.2⟩) h

/-- A table corresponds back to the other one. -/
theorem TableRenames.symm (h : TableRenames K R xs ys) : TableRenames (flip K) (flip R) ys xs :=
  List.Forall₂.flip h

/-- Tables that correspond in turn correspond. -/
theorem TableRenames.comp (h : TableRenames K R xs ys) (h' : TableRenames K' R' ys zs)
    (hK : ∀ a b c, K a b → K' b c → K'' a c) : TableRenames K'' (Relation.Comp R R') xs zs :=
  forall₂_comp (fun _ y _ hxy hyz => ⟨hK _ _ _ hxy.1 hyz.1, y.2, hxy.2, hyz.2⟩) h h'

end Tables

/-- Equality is one to one. -/
theorem biUnique_eq {α : Type} : Relator.BiUnique (Eq : α → α → Prop) :=
  ⟨fun _ _ _ h h' => h.trans h'.symm, fun _ _ _ h h' => h.symm.trans h'⟩

/-! ## Composites -/

/-- Lists of the same kind, of renamed shapes. -/
structure ListSpec.Renames (R : TermIndex → TermIndex → Prop) (a b : ListSpec) : Prop where
  element : a.element = b.element
  item : a.item.Renames R b.item
  delimiter : Option.Rel (Shape.Renames R) a.delimiter b.delimiter
  bounds : a.bounds = b.bounds

/-- Braces with the same symbols, around renamed shapes. -/
structure BraceSpec.Renames (R : TermIndex → TermIndex → Prop) (a b : BraceSpec) : Prop where
  opening : a.opening = b.opening
  inside : a.inside.Renames R b.inside
  closing : a.closing = b.closing
  omissible : a.omissible = b.omissible

section Specs

variable {R R' : TermIndex → TermIndex → Prop}

/-- Results that correspond in turn correspond. -/
theorem optionRel_comp {α : Type} {S S' S'' : α → α → Prop} {x y z : Option α}
    (hS : ∀ a b c, S a b → S' b c → S'' a c) (h : Option.Rel S x y) (h' : Option.Rel S' y z) :
    Option.Rel S'' x z := by
  cases h with
  | none =>
    cases h'
    exact .none
  | some hab =>
    cases h' with
    | some hbc => exact .some (hS _ _ _ hab hbc)

/-- A result corresponds back to the other one. -/
theorem optionRel_symm {α : Type} {S : α → α → Prop} {x y : Option α} (h : Option.Rel S x y) :
    Option.Rel (flip S) y x := by
  cases h with
  | none => exact .none
  | some hab => exact .some hab

/-- Results correspond one to one if values do. -/
theorem biUnique_optionRel {α : Type} {S : α → α → Prop} (hS : Relator.BiUnique S) :
    Relator.BiUnique (Option.Rel S) := by
  constructor
  · intro x y z h h'
    cases h with
    | none =>
      cases h'
      rfl
    | some hxz =>
      cases h' with
      | some hyz => exact congrArg some (hS.1 hxz hyz)
  · intro x y z h h'
    cases h with
    | none =>
      cases h'
      rfl
    | some hxy =>
      cases h' with
      | some hxz => exact congrArg some (hS.2 hxy hxz)

/-- Lists correspond one to one if terms do. -/
theorem biUnique_listSpec (hR : Relator.BiUnique R) : Relator.BiUnique (ListSpec.Renames R) := by
  have hshape := Shape.biUnique_renames hR
  have hdelimiter := biUnique_optionRel hshape
  constructor
  · rintro ⟨e, s, d, n⟩ ⟨e', s', d', n'⟩ c h h'
    obtain rfl : e = e' := h.element.trans h'.element.symm
    obtain rfl : s = s' := hshape.1 h.item h'.item
    obtain rfl : d = d' := hdelimiter.1 h.delimiter h'.delimiter
    obtain rfl : n = n' := h.bounds.trans h'.bounds.symm
    rfl
  · rintro a ⟨e, s, d, n⟩ ⟨e', s', d', n'⟩ h h'
    obtain rfl : e = e' := h.element.symm.trans h'.element
    obtain rfl : s = s' := hshape.2 h.item h'.item
    obtain rfl : d = d' := hdelimiter.2 h.delimiter h'.delimiter
    obtain rfl : n = n' := h.bounds.symm.trans h'.bounds
    rfl

/-- Braces correspond one to one if terms do. -/
theorem biUnique_braceSpec (hR : Relator.BiUnique R) : Relator.BiUnique (BraceSpec.Renames R) := by
  have hshape := Shape.biUnique_renames hR
  constructor
  · rintro ⟨o, s, k, n⟩ ⟨o', s', k', n'⟩ c h h'
    obtain rfl : o = o' := h.opening.trans h'.opening.symm
    obtain rfl : s = s' := hshape.1 h.inside h'.inside
    obtain rfl : k = k' := h.closing.trans h'.closing.symm
    obtain rfl : n = n' := h.omissible.trans h'.omissible.symm
    rfl
  · rintro a ⟨o, s, c, n⟩ ⟨o', s', c', n'⟩ h h'
    obtain rfl : o = o' := h.opening.symm.trans h'.opening
    obtain rfl : s = s' := hshape.2 h.inside h'.inside
    obtain rfl : c = c' := h.closing.symm.trans h'.closing
    obtain rfl : n = n' := h.omissible.symm.trans h'.omissible
    rfl

/-- Lists that are renamed still are in a wider relation. -/
theorem ListSpec.Renames.mono (hR : R ≤ R') : ListSpec.Renames R ≤ ListSpec.Renames R' :=
  fun _ _ h => ⟨h.element, h.item.mono hR, optionRel_imp h.delimiter fun _ _ hd => hd.mono hR,
    h.bounds⟩

/-- Braces that are renamed still are in a wider relation. -/
theorem BraceSpec.Renames.mono (hR : R ≤ R') : BraceSpec.Renames R ≤ BraceSpec.Renames R' :=
  fun _ _ h => ⟨h.opening, h.inside.mono hR, h.closing, h.omissible⟩

/-- Lists that are renamed in turn are renamed. -/
theorem ListSpec.Renames.comp (a b c : ListSpec) (h : ListSpec.Renames R a b)
    (h' : ListSpec.Renames R' b c) : ListSpec.Renames (Relation.Comp R R') a c :=
  ⟨h.element.trans h'.element, h.item.comp h'.item,
    optionRel_comp (fun _ _ _ hd hd' => hd.comp hd') h.delimiter h'.delimiter,
    h.bounds.trans h'.bounds⟩

/-- Braces that are renamed in turn are renamed. -/
theorem BraceSpec.Renames.comp (a b c : BraceSpec) (h : BraceSpec.Renames R a b)
    (h' : BraceSpec.Renames R' b c) : BraceSpec.Renames (Relation.Comp R R') a c :=
  ⟨h.opening.trans h'.opening, h.inside.comp h'.inside, h.closing.trans h'.closing,
    h.omissible.trans h'.omissible⟩

/-- A list is renamed back to the other one. -/
theorem ListSpec.Renames.symm (a b : ListSpec) (h : ListSpec.Renames R a b) :
    ListSpec.Renames (flip R) b a :=
  ⟨h.element.symm, h.item.symm, optionRel_imp (optionRel_symm h.delimiter) fun _ _ hd => hd.symm,
    h.bounds.symm⟩

/-- Braces are renamed back to the other ones. -/
theorem BraceSpec.Renames.symm (a b : BraceSpec) (h : BraceSpec.Renames R a b) :
    BraceSpec.Renames (flip R) b a :=
  ⟨h.opening.symm, h.inside.symm, h.closing.symm, h.omissible.symm⟩

end Specs

/-! ## Drafts -/

namespace Draft

variable {R R' : TermIndex → TermIndex → Prop} {a b c : Draft} {i j : TermIndex} {s t : Shape}
  {entry entry' : Entry}

/-- The rule of an index waits for its shape. -/
def IsPending (draft : Draft) (index : TermIndex) : Prop :=
  ∃ entry, draft.entries[index.value]? = some entry ∧ entry.kind = .rule none

/-- The composites of one draft are renamed to those of the other one. -/
structure RenamesComposites (R : TermIndex → TermIndex → Prop) (a b : Draft) : Prop where
  optionals : TableRenames (Shape.Renames R) R a.optionals b.optionals
  groups : TableRenames (Shape.Renames R) R a.groups b.groups
  lists : TableRenames (ListSpec.Renames R) R a.lists b.lists
  braces : TableRenames (BraceSpec.Renames R) R a.braces b.braces

/-- **Renaming of drafts.**  The terms of one draft are related to those of the other one, one to
one, and related terms are registered as the same. -/
structure Renames (R : TermIndex → TermIndex → Prop) (a b : Draft) : Prop where
  biUnique : Relator.BiUnique R
  bounded : ∀ i j, R i j → i.value < a.entries.size ∧ j.value < b.entries.size
  size_eq : a.entries.size = b.entries.size
  pending : ∀ i j, R i j → (a.IsPending i ↔ b.IsPending j)
  claims : a.claims = b.claims
  declared : TableRenames Eq R a.declared b.declared
  keyTerms : ∀ name, Option.Rel (KeyTerm.Alike R) (a.keyTerms.get? name) (b.keyTerms.get? name)
  composites : RenamesComposites R a b

/-- The empty draft is renamed to itself. -/
theorem renames_empty : Renames (fun _ _ => False) .empty .empty where
  biUnique := ⟨fun _ _ _ h => h.elim, fun _ _ _ h => h.elim⟩
  bounded _ _ h := h.elim
  size_eq := rfl
  pending _ _ h := h.elim
  claims := rfl
  declared := .nil
  keyTerms name := by
    have hnone : Draft.empty.keyTerms.get? name = none := KeyTermTable.get?_empty name
    rw [hnone]
    exact .none
  composites := ⟨.nil, .nil, .nil, .nil⟩

/-- Composites that are renamed still are in a wider relation. -/
theorem RenamesComposites.mono (h : RenamesComposites R a b) (hR : R ≤ R') :
    RenamesComposites R' a b where
  optionals := h.optionals.imp (fun _ _ hs => hs.mono hR) hR
  groups := h.groups.imp (fun _ _ hs => hs.mono hR) hR
  lists := h.lists.imp (ListSpec.Renames.mono hR) hR
  braces := h.braces.imp (BraceSpec.Renames.mono hR) hR

/-- Other tables do not matter for composites. -/
theorem RenamesComposites.others (h : RenamesComposites R a b) {entries entries' : Array Entry}
    {keyTerms keyTerms' : KeyTermTable} {declared declared' : List (String × TermIndex)}
    {claims claims' : List (String × String)} :
    RenamesComposites R { a with entries, keyTerms, declared, claims }
      { b with
        entries := entries', keyTerms := keyTerms', declared := declared', claims := claims' } :=
  ⟨h.optionals, h.groups, h.lists, h.braces⟩

/-! ### Orders one after the other -/

/-- A draft is renamed back to the other one. -/
theorem Renames.symm (h : Renames R a b) : Renames (flip R) b a where
  biUnique := ⟨fun _ _ _ hij hkj => h.biUnique.2 hij hkj, fun _ _ _ hij hik => h.biUnique.1 hij hik⟩
  bounded _ _ hij := (h.bounded _ _ hij).symm
  size_eq := h.size_eq.symm
  pending _ _ hij := (h.pending _ _ hij).symm
  claims := h.claims.symm
  declared := h.declared.symm.imp (fun _ _ heq => heq.symm) (le_refl _)
  keyTerms name := optionRel_imp (optionRel_symm (h.keyTerms name)) fun _ _ hkey =>
    ⟨hkey.request.symm, hkey.term⟩
  composites := {
    optionals := h.composites.optionals.symm.imp (fun _ _ hs => hs.symm) (le_refl _)
    groups := h.composites.groups.symm.imp (fun _ _ hs => hs.symm) (le_refl _)
    lists := h.composites.lists.symm.imp (fun _ _ hs => hs.symm) (le_refl _)
    braces := h.composites.braces.symm.imp (fun _ _ hs => hs.symm) (le_refl _) }

/-- Drafts that are renamed in turn are renamed. -/
theorem Renames.comp (h : Renames R a b) (h' : Renames R' b c) :
    Renames (Relation.Comp R R') a c where
  biUnique := biUnique_comp h.biUnique h'.biUnique
  bounded := by
    rintro i k ⟨j, hij, hjk⟩
    exact ⟨(h.bounded i j hij).1, (h'.bounded j k hjk).2⟩
  size_eq := h.size_eq.trans h'.size_eq
  pending := by
    rintro i k ⟨j, hij, hjk⟩
    exact (h.pending i j hij).trans (h'.pending j k hjk)
  claims := h.claims.trans h'.claims
  declared := h.declared.comp h'.declared fun _ _ _ => Eq.trans
  keyTerms name := optionRel_comp (fun _ key _ hkey hkey' =>
    ⟨hkey.request.trans hkey'.request, key.term, hkey.term, hkey'.term⟩)
    (h.keyTerms name) (h'.keyTerms name)
  composites := {
    optionals := h.composites.optionals.comp h'.composites.optionals fun _ _ _ hs hs' => hs.comp hs'
    groups := h.composites.groups.comp h'.composites.groups fun _ _ _ hs hs' => hs.comp hs'
    lists := h.composites.lists.comp h'.composites.lists ListSpec.Renames.comp
    braces := h.composites.braces.comp h'.composites.braces BraceSpec.Renames.comp }

/-- A draft that another one is renamed to is renamed to itself. -/
theorem Renames.right_self (h : Renames R a b) : Renames (Relation.Comp (flip R) R) b b :=
  h.symm.comp h

/-! ### What is found -/

/-- A request is answered by related terms. -/
theorem Renames.lookup_key (h : Renames R a b) (request : KeyRequest) :
    KeyTermTable.AnswersAlike R (a.keyTerms.lookup request) (b.keyTerms.lookup request) :=
  KeyTermTable.answersAlike_of_get? (h.keyTerms request.name)

/-- A node type is declared in both drafts or in neither. -/
theorem Renames.lookup_declared (h : Renames R a b) (typeName : String) :
    Option.Rel R (a.declared.lookup typeName) (b.declared.lookup typeName) :=
  h.declared.lookup biUnique_eq rfl

/-- An optional is registered in both drafts or in neither. -/
theorem Renames.lookup_optionals (h : Renames R a b) (hs : s.Renames R t) :
    Option.Rel R (a.optionals.lookup s) (b.optionals.lookup t) :=
  h.composites.optionals.lookup (Shape.biUnique_renames h.biUnique) hs

/-- A group is registered in both drafts or in neither. -/
theorem Renames.lookup_groups (h : Renames R a b) (hs : s.Renames R t) :
    Option.Rel R (a.groups.lookup s) (b.groups.lookup t) :=
  h.composites.groups.lookup (Shape.biUnique_renames h.biUnique) hs

/-- A list is registered in both drafts or in neither. -/
theorem Renames.lookup_lists (h : Renames R a b) {spec spec' : ListSpec}
    (hspec : spec.Renames R spec') : Option.Rel R (a.lists.lookup spec) (b.lists.lookup spec') :=
  h.composites.lists.lookup (biUnique_listSpec h.biUnique) hspec

/-- Braces are registered in both drafts or in neither. -/
theorem Renames.lookup_braces (h : Renames R a b) {spec spec' : BraceSpec}
    (hspec : spec.Renames R spec') : Option.Rel R (a.braces.lookup spec) (b.braces.lookup spec') :=
  h.composites.braces.lookup (biUnique_braceSpec h.biUnique) hspec

/-! ### What is added -/

/-- A new entry does not matter to earlier terms that wait. -/
theorem isPending_pushEntry_of_lt (hlt : i.value < a.entries.size) :
    (a.pushEntry entry).IsPending i ↔ a.IsPending i := by
  unfold IsPending
  rw [pushEntry, Array.getElem?_push_lt hlt, Array.getElem?_eq_getElem hlt]

/-- A new term waits for its shape if its entry does. -/
theorem isPending_pushEntry (hi : TermIndex.ofNat? a.entries.size = some i) :
    (a.pushEntry entry).IsPending i ↔ entry.kind = .rule none := by
  unfold IsPending
  rw [pushEntry, getElem?_push_ofNat? hi]
  simp

/-- Terms that no others are related to may be related to each other. -/
theorem biUnique_relating (hR : Relator.BiUnique R) (hi : ∀ q, ¬ R i q) (hj : ∀ p, ¬ R p j) :
    Relator.BiUnique (relating R i j) := by
  constructor
  · rintro p p' q (h | ⟨rfl, rfl⟩) (h' | ⟨hp, hq⟩)
    · exact hR.1 h h'
    · exact absurd (hq ▸ h) (hj p)
    · exact absurd h' (hj p')
    · exact hp.symm
  · rintro p q q' (h | ⟨rfl, rfl⟩) (h' | ⟨hp, hq⟩)
    · exact hR.2 h h'
    · exact absurd (hp ▸ h) (hi q)
    · exact absurd h' (hi q')
    · exact hq.symm

/-- One entry more is added to either draft. -/
theorem Renames.grow (h : Renames R a b) (entry entry' : Entry) :
    Renames R (a.pushEntry entry) (b.pushEntry entry') where
  biUnique := h.biUnique
  bounded i j hij := by
    have hlt := h.bounded i j hij
    unfold Draft.pushEntry
    rw [Array.size_push, Array.size_push]
    omega
  size_eq := by
    unfold Draft.pushEntry
    rw [Array.size_push, Array.size_push, h.size_eq]
  pending i j hij := by
    obtain ⟨hlt, hlt'⟩ := h.bounded i j hij
    rw [isPending_pushEntry_of_lt hlt, isPending_pushEntry_of_lt hlt']
    exact h.pending i j hij
  claims := h.claims
  declared := h.declared
  keyTerms := h.keyTerms
  composites := h.composites.others

/-- Terms that no others are related to are related, if both wait for a shape or neither. -/
theorem Renames.relate (h : Renames R a b) (hi : i.value < a.entries.size)
    (hj : j.value < b.entries.size) (hnew : ∀ q, ¬ R i q) (hnew' : ∀ p, ¬ R p j)
    (hpending : a.IsPending i ↔ b.IsPending j) : Renames (relating R i j) a b where
  biUnique := biUnique_relating h.biUnique hnew hnew'
  bounded := by
    rintro p q (hpq | ⟨rfl, rfl⟩)
    · exact h.bounded p q hpq
    · exact ⟨hi, hj⟩
  size_eq := h.size_eq
  pending := by
    rintro p q (hpq | ⟨rfl, rfl⟩)
    · exact h.pending p q hpq
    · exact hpending
  claims := h.claims
  declared := h.declared.imp (le_refl _) (le_relating R i j)
  keyTerms name := optionRel_imp (h.keyTerms name) fun _ _ hkey => hkey.mono (le_relating R i j)
  composites := h.composites.mono (le_relating R i j)

/-- A number that is not taken yet is not related to any. -/
theorem Renames.not_related (h : Renames R a b) (hi : a.entries.size ≤ i.value) (j : TermIndex) :
    ¬ R i j :=
  fun hij => absurd (h.bounded i j hij).1 (Nat.not_lt.mpr hi)

/-- Entries with the next numbers are added and related, if both wait for a shape or neither. -/
theorem Renames.pushEntry (h : Renames R a b) (entry entry' : Entry)
    (hi : TermIndex.ofNat? a.entries.size = some i) (hj : TermIndex.ofNat? b.entries.size = some j)
    (hpending : entry.kind = .rule none ↔ entry'.kind = .rule none) :
    Renames (relating R i j) (a.pushEntry entry) (b.pushEntry entry') := by
  have hvalue := Drafting.value_of_ofNat? hi
  have hvalue' := Drafting.value_of_ofNat? hj
  refine (h.grow entry entry').relate ?_ ?_ (h.not_related (Nat.le_of_eq hvalue.symm))
    (h.symm.not_related (Nat.le_of_eq hvalue'.symm)) ?_
  · unfold Draft.pushEntry
    rw [Array.size_push]
    omega
  · unfold Draft.pushEntry
    rw [Array.size_push]
    omega
  · rw [isPending_pushEntry hi, isPending_pushEntry hj, hpending]

/-- Key terms are noted. -/
theorem Renames.withKeyTerms (h : Renames R a b) {keyTerms keyTerms' : KeyTermTable}
    (hkeys : ∀ name, Option.Rel (KeyTerm.Alike R) (keyTerms.get? name) (keyTerms'.get? name)) :
    Renames R { a with keyTerms } { b with keyTerms := keyTerms' } :=
  ⟨h.biUnique, h.bounded, h.size_eq, h.pending, h.claims, h.declared, hkeys, h.composites.others⟩

/-- The same key term is added. -/
theorem Renames.pushKey (h : Renames R a b) (request : KeyRequest) (hij : R i j) :
    Renames R { a with keyTerms := a.keyTerms.push { request with term := i } }
      { b with keyTerms := b.keyTerms.push { request with term := j } } := by
  refine h.withKeyTerms fun name => ?_
  have hname := h.keyTerms name
  rw [KeyTermTable.get?_push, KeyTermTable.get?_push]
  generalize a.keyTerms.get? name = found, b.keyTerms.get? name = found' at hname
  cases hname with
  | some hkey => exact .some hkey
  | none =>
    rw [Option.none_or, Option.none_or]
    by_cases hrequest : request.name = name
    · rw [if_pos hrequest, if_pos hrequest]
      exact .some ⟨rfl, hij⟩
    · rw [if_neg hrequest, if_neg hrequest]
      exact .none

/-- The same declaration is added. -/
theorem Renames.declare (h : Renames R a b) (typeName : String) (hij : R i j) :
    Renames R { a with declared := (typeName, i) :: a.declared }
      { b with declared := (typeName, j) :: b.declared } :=
  ⟨h.biUnique, h.bounded, h.size_eq, h.pending, h.claims, .cons ⟨rfl, hij⟩ h.declared, h.keyTerms,
    h.composites.others⟩

/-- The same names are claimed. -/
theorem Renames.claim (h : Renames R a b) (claims : List (String × String)) :
    Renames R { a with claims } { b with claims } :=
  ⟨h.biUnique, h.bounded, h.size_eq, h.pending, rfl, h.declared, h.keyTerms, h.composites.others⟩

/-- Other composites are noted. -/
theorem Renames.note (h : Renames R a b)
    {optionals optionals' groups groups' : List (Shape × TermIndex)}
    {lists lists' : List (ListSpec × TermIndex)} {braces braces' : List (BraceSpec × TermIndex)}
    (hoptionals : TableRenames (Shape.Renames R) R optionals optionals')
    (hgroups : TableRenames (Shape.Renames R) R groups groups')
    (hlists : TableRenames (ListSpec.Renames R) R lists lists')
    (hbraces : TableRenames (BraceSpec.Renames R) R braces braces') :
    Renames R { a with optionals, groups, lists, braces } { b with
        optionals := optionals', groups := groups', lists := lists', braces := braces' } :=
  ⟨h.biUnique, h.bounded, h.size_eq, h.pending, h.claims, h.declared, h.keyTerms,
    hoptionals, hgroups, hlists, hbraces⟩

/-- The same optional is noted in both drafts. -/
theorem Renames.noteOptional (h : Renames R a b) (hs : s.Renames R t) (hij : R i j) :
    Renames R { a with optionals := (s, i) :: a.optionals }
      { b with optionals := (t, j) :: b.optionals } :=
  h.note (.cons ⟨hs, hij⟩ h.composites.optionals) h.composites.groups h.composites.lists
    h.composites.braces

/-- The same group is noted in both drafts. -/
theorem Renames.noteGroup (h : Renames R a b) (hs : s.Renames R t) (hij : R i j) :
    Renames R { a with groups := (s, i) :: a.groups } { b with groups := (t, j) :: b.groups } :=
  h.note h.composites.optionals (.cons ⟨hs, hij⟩ h.composites.groups) h.composites.lists
    h.composites.braces

/-- The same list is noted in both drafts. -/
theorem Renames.noteList (h : Renames R a b) {spec spec' : ListSpec} (hspec : spec.Renames R spec')
    (hij : R i j) :
    Renames R { a with lists := (spec, i) :: a.lists } { b with lists := (spec', j) :: b.lists } :=
  h.note h.composites.optionals h.composites.groups (.cons ⟨hspec, hij⟩ h.composites.lists)
    h.composites.braces

/-- The same braces are noted in both drafts. -/
theorem Renames.noteBraces (h : Renames R a b) {spec spec' : BraceSpec}
    (hspec : spec.Renames R spec') (hij : R i j) :
    Renames R { a with braces := (spec, i) :: a.braces }
      { b with braces := (spec', j) :: b.braces } :=
  h.note h.composites.optionals h.composites.groups h.composites.lists
    (.cons ⟨hspec, hij⟩ h.composites.braces)

/-! ### What is changed -/

/-- Whether an entry waits for its shape is changed for one entry at most. -/
theorem isPending_modifyTerm {change : Term → Term} (hij : i ≠ j) :
    (a.modifyTerm i change).IsPending j ↔ a.IsPending j := by
  unfold IsPending
  have hne : i.value ≠ j.value := fun heq => hij (Drafting.eq_of_value heq)
  rw [Draft.modifyTerm, Array.getElem?_modify, if_neg hne]

/-- Entries of related terms are changed, if then both wait for a shape or neither. -/
theorem Renames.modifyTerm {change change' : Term → Term} (h : Renames R a b) (hij : R i j)
    (hpending : (a.modifyTerm i change).IsPending i ↔ (b.modifyTerm j change').IsPending j) :
    Renames R (a.modifyTerm i change) (b.modifyTerm j change') where
  biUnique := h.biUnique
  bounded p q hpq := by
    have hlt := h.bounded p q hpq
    rwa [Draft.modifyTerm, Draft.modifyTerm, Array.size_modify, Array.size_modify]
  size_eq := by
    rw [Draft.modifyTerm, Draft.modifyTerm, Array.size_modify, Array.size_modify, h.size_eq]
  pending p q hpq := by
    -- Terms are related one to one, so the changed entries are related to each other only.
    by_cases hp : i = p
    · subst hp
      obtain rfl := h.biUnique.2 hij hpq
      exact hpending
    · have hq : j ≠ q := by
        rintro rfl
        exact hp (h.biUnique.1 hij hpq)
      rw [isPending_modifyTerm hp, isPending_modifyTerm hq]
      exact h.pending p q hpq
  claims := h.claims
  declared := h.declared
  keyTerms := h.keyTerms
  composites := h.composites.others

/-- A rule that gets its shape does not wait any longer. -/
theorem not_isPending_withShape (shape : Shape) :
    ¬ (a.modifyTerm i (·.withShape shape)).IsPending i := by
  rintro ⟨found, hfound, hkind⟩
  rw [Draft.modifyTerm, Array.getElem?_modify, if_pos rfl] at hfound
  cases hentry : a.entries[i.value]? with
  | none =>
    rw [hentry] at hfound
    cases hfound
  | some entry =>
    rw [hentry] at hfound
    obtain rfl := Option.some.inj hfound
    cases hkind

/-- Related rules get shapes, whatever these are. -/
theorem Renames.withShape (h : Renames R a b) (hij : R i j) (s t : Shape) :
    Renames R (a.modifyTerm i (·.withShape s)) (b.modifyTerm j (·.withShape t)) :=
  h.modifyTerm hij (iff_of_false (not_isPending_withShape s) (not_isPending_withShape t))

/-- Flags do not matter to terms that wait. -/
theorem isPending_withFlags (change : Flags → Flags) :
    (a.modifyTerm i fun term => { term with flags := change term.flags }).IsPending i ↔
      a.IsPending i := by
  unfold IsPending
  rw [Draft.modifyTerm, Array.getElem?_modify, if_pos rfl]
  cases a.entries[i.value]? <;> simp

/-- The flags of related terms are changed. -/
theorem Renames.withFlags (h : Renames R a b) (hij : R i j) (change : Flags → Flags) :
    Renames R (a.modifyTerm i fun term => { term with flags := change term.flags })
      (b.modifyTerm j fun term => { term with flags := change term.flags }) := by
  refine h.modifyTerm hij ?_
  rw [isPending_withFlags, isPending_withFlags]
  exact h.pending i j hij

end Draft

end TypedGrammar
