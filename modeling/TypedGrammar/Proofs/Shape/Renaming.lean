import Mathlib.Data.List.Forall2
import TypedGrammar.Proofs.Shape.Likeness

/-!
# Renamed shapes

A shape is renamed if each of its terms is exchanged for a related one and nothing else changes.
What is put together from renamed shapes is renamed, and if terms are related one to one, so are
shapes.
-/

namespace TypedGrammar

/-- Relations between terms, one after the other. -/
theorem biUnique_comp {α β γ : Type} {R : α → β → Prop} {S : β → γ → Prop}
    (hR : Relator.BiUnique R) (hS : Relator.BiUnique S) :
    Relator.BiUnique (Relation.Comp R S) := by
  constructor
  · rintro a c a' ⟨b, hab, hbc⟩ ⟨b', hab', hbc'⟩
    obtain rfl := hS.1 hbc hbc'
    exact hR.1 hab hab'
  · rintro a c c' ⟨b, hab, hbc⟩ ⟨b', hab', hbc'⟩
    obtain rfl := hR.2 hab hab'
    exact hS.2 hbc hbc'

/-- Lists that are related in turn are related. -/
theorem forall₂_comp {α β γ : Type} {R : α → β → Prop} {S : β → γ → Prop} {T : α → γ → Prop}
    {as : List α} {bs : List β} {cs : List γ} (hT : ∀ a b c, R a b → S b c → T a c)
    (h : List.Forall₂ R as bs) (h' : List.Forall₂ S bs cs) : List.Forall₂ T as cs := by
  induction h generalizing cs with
  | nil =>
    cases h'
    exact .nil
  | cons hab _ ih =>
    cases h' with
    | cons hbc hrest => exact .cons (hT _ _ _ hab hbc) (ih hrest)

namespace Shape

/-! ## References -/

/-- The terms of some shapes are their references, shape by shape. -/
theorem filterMap_partsOfAll (shapes : List Shape) :
    (partsOfAll shapes).filterMap term? = shapes.flatMap references := by
  induction shapes with
  | nil => rfl
  | cons shape rest ih =>
    rw [partsOfAll, List.filterMap_append, ih]
    rfl

/-- The references of a sequence are those of its items. -/
theorem references_sequence (items : List Shape) :
    (sequence items).references = items.flatMap references :=
  filterMap_partsOfAll items

/-- The references of a choice are those of its alternatives. -/
theorem references_choice (alternatives : List Shape) :
    (choice alternatives).references = alternatives.flatMap references :=
  filterMap_partsOfAll alternatives

/-- The references of a list with delimiters are those of its item, then those of its delimiter. -/
theorem references_separated (item delimiter : Shape) (bounds : Bounds) :
    (separated item delimiter bounds).references = item.references ++ delimiter.references :=
  List.filterMap_append

/-- The items of a shape refer to what it refers to. -/
theorem flatMap_items (shape : Shape) : shape.items.flatMap references = shape.references := by
  cases shape with
  | empty => rfl
  | sequence items => exact (references_sequence items).symm
  | _ => exact List.flatMap_singleton references _

/-- Items that are put together keep their references. -/
theorem references_ofItems (items : List Shape) :
    (ofItems items).references = items.flatMap references := by
  match items with
  | [] => rfl
  | [item] => exact (List.flatMap_singleton references item).symm
  | _ :: _ :: _ => exact references_sequence _

/-- Shapes that are put together keep their references. -/
theorem references_append (a b : Shape) : (a ++ b).references = a.references ++ b.references := by
  show (ofItems (a.items ++ b.items)).references = _
  rw [references_ofItems, List.flatMap_append, flatMap_items, flatMap_items]

/-- The alternatives of a shape refer to what it refers to. -/
theorem flatMap_alternatives (shape : Shape) :
    shape.alternatives.flatMap references = shape.references := by
  cases shape with
  | choice alternatives => exact (references_choice alternatives).symm
  | _ => exact List.flatMap_singleton references _

/-- Shapes that are put together as alternatives keep their references. -/
theorem references_or (a b : Shape) : (a ||| b).references = a.references ++ b.references := by
  show (choice (a.alternatives ++ b.alternatives)).references = _
  rw [references_choice, List.flatMap_append, flatMap_alternatives, flatMap_alternatives]

/-! ## Renaming -/

variable {R R' : TermIndex → TermIndex → Prop} {a a' b b' s t u : Shape} {as bs : List Shape}
  {bounds : Bounds} {i j : TermIndex}

/-- One shape is the other one with related terms in place of its terms. -/
structure Renames (R : TermIndex → TermIndex → Prop) (s t : Shape) : Prop where
  form : s.form = t.form
  references : List.Forall₂ R s.references t.references

/-- Shapes that are renamed still are in a wider relation. -/
theorem Renames.mono (h : Renames R s t) (hR : R ≤ R') : Renames R' s t :=
  ⟨h.form, h.references.imp hR⟩

/-- Shapes that are renamed in turn are renamed. -/
theorem Renames.comp (h : Renames R s t) (h' : Renames R' t u) :
    Renames (Relation.Comp R R') s u :=
  ⟨h.form.trans h'.form, forall₂_comp (fun _ j _ hij hjk => ⟨j, hij, hjk⟩) h.references h'.references⟩

/-- A shape is renamed back to the other one. -/
theorem Renames.symm (h : Renames R s t) : Renames (flip R) t s :=
  ⟨h.form.symm, List.Forall₂.flip h.references⟩

/-- A shape that refers to no terms is renamed to itself. -/
theorem renames_self (h : s.references = []) : Renames R s s :=
  ⟨rfl, h ▸ .nil⟩

/-- Related terms are renamed as shapes. -/
theorem renames_term (h : R i j) : Renames R (.term i) (.term j) :=
  ⟨rfl, .cons h .nil⟩

/-- A single term is renamed to a single term. -/
theorem Renames.isSome_eq (h : Renames R s t) : s.term?.isSome = t.term?.isSome := by
  rw [← isSome_term?_form s, h.form, isSome_term?_form]

theorem Renames.append (h : Renames R a a') (h' : Renames R b b') :
    Renames R (a ++ b) (a' ++ b') where
  form := by rw [form_append, form_append, h.form, h'.form]
  references := by
    rw [references_append, references_append]
    exact List.rel_append h.references h'.references

theorem Renames.or (h : Renames R a a') (h' : Renames R b b') : Renames R (a ||| b) (a' ||| b') where
  form := by rw [form_or, form_or, h.form, h'.form]
  references := by
    rw [references_or, references_or]
    exact List.rel_append h.references h'.references

theorem Renames.orEmpty (h : Renames R s t) : Renames R s.orEmpty t.orEmpty :=
  h.or (renames_self rfl)

theorem Renames.repeated (h : Renames R s t) :
    Renames R (.repeated s bounds) (.repeated t bounds) :=
  ⟨congrArg (Shape.repeated · bounds) h.form, h.references⟩

theorem Renames.separated (h : Renames R a a') (h' : Renames R b b') :
    Renames R (.separated a b bounds) (.separated a' b' bounds) where
  form := congrArg₂ (Shape.separated · · bounds) h.form h'.form
  references := by
    rw [references_separated, references_separated]
    exact List.rel_append h.references h'.references

/-- Lists of renamed shapes have the same forms, and related terms one after the other. -/
theorem renames_all (h : List.Forall₂ (Renames R) as bs) :
    formOfAll as = formOfAll bs ∧ List.Forall₂ R (as.flatMap references) (bs.flatMap references) := by
  induction h with
  | nil => exact ⟨rfl, .nil⟩
  | cons hfirst _ ih =>
    refine ⟨congrArg₂ List.cons hfirst.form ih.1, ?_⟩
    rw [List.flatMap_cons, List.flatMap_cons]
    exact List.rel_append hfirst.references ih.2

/-- Sequences are renamed item by item. -/
theorem renames_sequence (h : List.Forall₂ (Renames R) as bs) :
    Renames R (.sequence as) (.sequence bs) where
  form := congrArg Shape.sequence (renames_all h).1
  references := by
    rw [references_sequence, references_sequence]
    exact (renames_all h).2

/-- Choices are renamed alternative by alternative. -/
theorem renames_choice (h : List.Forall₂ (Renames R) as bs) :
    Renames R (.choice as) (.choice bs) where
  form := congrArg Shape.choice (renames_all h).1
  references := by
    rw [references_choice, references_choice]
    exact (renames_all h).2

/-- Shapes that are put together in a way that keeps renaming are renamed. -/
theorem renames_foldl {f : Shape → Shape → Shape}
    (hf : ∀ a a' b b', Renames R a a' → Renames R b b' → Renames R (f a b) (f a' b'))
    (h : Renames R a a') (h' : List.Forall₂ (Renames R) as bs) :
    Renames R (as.foldl f a) (bs.foldl f a') := by
  induction h' generalizing a a' with
  | nil => exact h
  | cons hfirst _ ih => exact ih (hf _ _ _ _ h hfirst)

/-! ## One to one -/

/-- A form has as many references as the shape. -/
theorem length_references_form (shape : Shape) :
    shape.form.references.length = shape.references.length := by
  have hall : ∀ shapes : List Shape,
      (∀ s ∈ shapes, s.form.references.length = s.references.length) →
        ((formOfAll shapes).flatMap references).length = (shapes.flatMap references).length := by
    intro shapes h
    induction shapes with
    | nil => rfl
    | cons s rest ih =>
      rw [List.forall_mem_cons] at h
      rw [formOfAll, List.flatMap_cons, List.flatMap_cons, List.length_append, List.length_append,
        h.1, ih h.2]
  induction shape with
  | empty | term | hint => rfl
  | sequence items ih =>
    rw [Shape.form, references_sequence, references_sequence, hall items ih]
  | choice alternatives ih =>
    rw [Shape.form, references_choice, references_choice, hall alternatives ih]
  | repeated item bounds ih => exact ih
  | separated item delimiter bounds ihItem ihDelimiter =>
    rw [Shape.form, references_separated, references_separated, List.length_append,
      List.length_append, ihItem, ihDelimiter]

mutual

/-- A shape is known by its form and its terms. -/
theorem eq_of_form_eq : ∀ s t : Shape, s.form = t.form → s.references = t.references → s = t
  | .empty, t, hform, _ => by cases t <;> first | rfl | cases hform
  | .hint h, t, hform, _ => by
    cases t with
    | hint h' => exact hform
    | _ => cases hform
  | .term i, t, hform, hreferences => by
    cases t with
    | term j => exact congrArg Shape.term (List.cons.inj hreferences).1
    | _ => cases hform
  | .sequence items, t, hform, hreferences => by
    cases t with
    | sequence items' =>
      rw [references_sequence, references_sequence] at hreferences
      exact congrArg Shape.sequence
        (eq_of_formOfAll_eq items items' (Shape.sequence.inj hform) hreferences)
    | _ => cases hform
  | .choice items, t, hform, hreferences => by
    cases t with
    | choice items' =>
      rw [references_choice, references_choice] at hreferences
      exact congrArg Shape.choice
        (eq_of_formOfAll_eq items items' (Shape.choice.inj hform) hreferences)
    | _ => cases hform
  | .repeated item bounds, t, hform, hreferences => by
    cases t with
    | repeated item' bounds' =>
      obtain ⟨hitem, rfl⟩ := Shape.repeated.inj hform
      exact congrArg (Shape.repeated · bounds) (eq_of_form_eq item item' hitem hreferences)
    | _ => cases hform
  | .separated item delimiter bounds, t, hform, hreferences => by
    cases t with
    | separated item' delimiter' bounds' =>
      obtain ⟨hitem, hdelimiter, rfl⟩ := Shape.separated.inj hform
      rw [references_separated, references_separated] at hreferences
      -- Items of the same form have as many terms, so those of the delimiters begin together.
      obtain ⟨hfirst, hsecond⟩ := List.append_inj hreferences (by
        rw [← length_references_form, hitem, length_references_form])
      exact congrArg₂ (Shape.separated · · bounds) (eq_of_form_eq item item' hitem hfirst)
        (eq_of_form_eq delimiter delimiter' hdelimiter hsecond)
    | _ => cases hform

/-- The same holds of lists of shapes. -/
theorem eq_of_formOfAll_eq : ∀ as bs : List Shape, formOfAll as = formOfAll bs →
    as.flatMap references = bs.flatMap references → as = bs
  | [], [], _, _ => rfl
  | [], _ :: _, hform, _ => nomatch hform
  | _ :: _, [], hform, _ => nomatch hform
  | a :: as, b :: bs, hform, hreferences => by
    obtain ⟨hfirst, hrest⟩ := List.cons.inj hform
    rw [List.flatMap_cons, List.flatMap_cons] at hreferences
    obtain ⟨ha, has⟩ := List.append_inj hreferences (by
      rw [← length_references_form, hfirst, length_references_form])
    rw [eq_of_form_eq a b hfirst ha, eq_of_formOfAll_eq as bs hrest has]

end

/-- If terms are related one to one, then so are shapes. -/
theorem biUnique_renames (hR : Relator.BiUnique R) : Relator.BiUnique (Renames R) where
  left _ _ _ h h' := eq_of_form_eq _ _ (h.form.trans h'.form.symm)
    (hR.forall₂.1 h.references h'.references)
  right _ _ _ h h' := eq_of_form_eq _ _ (h.form.symm.trans h'.form)
    (hR.forall₂.2 h.references h'.references)

end Shape

end TypedGrammar
