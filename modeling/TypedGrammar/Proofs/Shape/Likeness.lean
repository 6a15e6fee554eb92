import TypedGrammar.Proofs.Matching.Likeness
import TypedGrammar.Proofs.OrderedChoice.Matchers
import TypedGrammar.Proofs.Shape.Parts

/-!
# Likeness of shapes

Two shapes are alike, as terms are related, if they match alike wherever related terms do.  To put
shapes together is to put together what they match, so shapes that are put together in the same way
from like shapes are alike, even if nothing stands in one of them where a hint stands in the other.
-/

namespace TypedGrammar

namespace Shape

open Matcher TypedGrammar.Language

/-! ## What operators match -/

/-- Two matches in a row match one after the other, and their trees are joined. -/
theorem matchPair_eq (p q : Matcher (List Tree)) :
    matchPair p q = andThen p fun trees => andThen q fun more => succeed (trees ++ more) :=
  rfl

/-- Nothing in front of a match can be left out. -/
theorem nothing_matchPair (p : Matcher (List Tree)) : matchPair (succeed []) p = p := by
  rw [matchPair_eq, succeed_andThen]
  simp only [List.nil_append]
  exact andThen_succeed p

/-- Nothing behind a match can be left out. -/
theorem matchPair_nothing (p : Matcher (List Tree)) : matchPair p (succeed []) = p := by
  rw [matchPair_eq]
  simp only [succeed_andThen, List.append_nil]
  exact andThen_succeed p

/-- Matches in a row may be bracketed in either way. -/
theorem matchPair_assoc (p q r : Matcher (List Tree)) :
    matchPair (matchPair p q) r = matchPair p (matchPair q r) := by
  simp only [matchPair_eq, andThen_assoc, succeed_andThen, List.append_assoc]

section Operators

variable (term : TermIndex → Matcher (List Tree)) {a b shape : Shape} {items more : List Shape}

/-- A row of items and one more row match one after the other. -/
theorem matchAll_append (items more : List Shape) :
    matchAll term (items ++ more) = matchPair (matchAll term items) (matchAll term more) := by
  induction items with
  | nil => exact (nothing_matchPair _).symm
  | cons item rest ih =>
    show matchPair (matcher term item) (matchAll term (rest ++ more)) =
      matchPair (matchPair (matcher term item) (matchAll term rest)) (matchAll term more)
    rw [ih, matchPair_assoc]

/-- A row of one item matches what the item does. -/
theorem matchAll_singleton (item : Shape) : matchAll term [item] = item.matcher term :=
  matchPair_nothing _

/-- A shape matches what its items match. -/
theorem matchAll_items (shape : Shape) : matchAll term shape.items = shape.matcher term := by
  cases shape with
  | empty => rfl
  | sequence items => rfl
  | _ => exact matchAll_singleton term _

/-- Items that are put together match as a row. -/
theorem matcher_ofItems (items : List Shape) :
    (ofItems items).matcher term = matchAll term items := by
  match items with
  | [] => rfl
  | [item] => exact (matchAll_singleton term item).symm
  | _ :: _ :: _ => rfl

/-- Shapes that are put together match one after the other. -/
theorem matcher_append (a b : Shape) :
    (a ++ b).matcher term = matchPair (a.matcher term) (b.matcher term) := by
  show (ofItems (a.items ++ b.items)).matcher term = _
  rw [matcher_ofItems, matchAll_append, matchAll_items, matchAll_items]

/-- Alternatives and further ones are tried in their order, if there are any on both sides. -/
theorem matchFirst_append (hitems : items ≠ []) (hmore : more ≠ []) :
    matchFirst term (items ++ more) = orElse (matchFirst term items) (matchFirst term more) := by
  induction items with
  | nil => exact absurd rfl hitems
  | cons item rest ih =>
    match rest, more with
    | [], next :: others => rfl
    | second :: rest, more =>
      rw [List.cons_append, List.cons_append, matchFirst_cons_cons, ← List.cons_append,
        ih (List.cons_ne_nil _ _), matchFirst_cons_cons, orElse_assoc]

/-- A shape matches what its alternatives match. -/
theorem matchFirst_alternatives (shape : Shape) :
    matchFirst term shape.alternatives = shape.matcher term := by
  cases shape <;> rfl

/-- Two shapes as alternatives match what either does, if neither is an empty choice. -/
theorem matcher_or (ha : a.alternatives ≠ []) (hb : b.alternatives ≠ []) :
    (a ||| b).matcher term = orElse (a.matcher term) (b.matcher term) := by
  show matchFirst term (a.alternatives ++ b.alternatives) = _
  rw [matchFirst_append term ha hb, matchFirst_alternatives, matchFirst_alternatives]

/-- A choice without alternatives adds nothing to another one. -/
theorem matcher_or_of_left (ha : a.alternatives = []) :
    (a ||| b).matcher term = b.matcher term := by
  show matchFirst term (a.alternatives ++ b.alternatives) = _
  rw [ha, List.nil_append, matchFirst_alternatives]

/-- An empty choice adds no alternative. -/
theorem matcher_or_of_right (hb : b.alternatives = []) :
    (a ||| b).matcher term = a.matcher term := by
  show matchFirst term (a.alternatives ++ b.alternatives) = _
  rw [hb, List.append_nil, matchFirst_alternatives]

end Operators

/-! ## Likeness -/

variable {R R' : TermIndex → TermIndex → Prop} {a a' b b' : Shape} {as bs : List Shape}
  {bounds : Bounds}

/-- Two shapes are alike if they match alike wherever related terms do, whatever the likeness of
trees may be. -/
def Alike (R : TermIndex → TermIndex → Prop) (a b : Shape) : Prop :=
  ∀ (T : Tree → Tree → Prop) (term term' : TermIndex → Matcher (List Tree)),
    (∀ i j, R i j → Matcher.Alike (List.Forall₂ T) (term i) (term' j)) →
      Matcher.Alike (List.Forall₂ T) (a.matcher term) (b.matcher term')

/-- Where more terms are related, more shapes are alike. -/
theorem Alike.mono (hR : ∀ i j, R i j → R' i j) (h : Alike R a b) : Alike R' a b :=
  fun T term term' hterms => h T term term' fun i j hij => hterms i j (hR i j hij)

/-- Nothing is alike. -/
theorem alike_empty : Alike R .empty .empty :=
  fun _ _ _ _ => alike_succeed .nil

/-- A hint matches what nothing matches. -/
theorem alike_hint (h : Hint) : Alike R (.hint h) .empty :=
  fun _ _ _ _ => alike_succeed .nil

/-- Related terms are alike. -/
theorem alike_term {i j : TermIndex} (h : R i j) : Alike R (.term i) (.term j) :=
  fun _ _ _ hterms => hterms i j h

section Matchers

variable {T : Tree → Tree → Prop} {p p' q q' : Matcher (List Tree)}

/-- Like matchers in a row are alike. -/
theorem alike_matchPair (hp : Matcher.Alike (List.Forall₂ T) p p')
    (hq : Matcher.Alike (List.Forall₂ T) q q') :
    Matcher.Alike (List.Forall₂ T) (matchPair p q) (matchPair p' q') :=
  hp.andThen fun _ _ htrees => hq.andThen fun _ _ hmore =>
    alike_succeed (List.rel_append htrees hmore)

/-- Repetitions of like items with like delimiters are alike. -/
theorem alike_matchRepeated (hitem : Matcher.Alike (List.Forall₂ T) p p')
    (hdelimiter : Matcher.Alike (List.Forall₂ T) q q') :
    Matcher.Alike (List.Forall₂ T) (matchRepeated p q) (matchRepeated p' q') := by
  have hpair : Matcher.Alike (List.Forall₂ T) (matchPair q p) (matchPair q' p') :=
    alike_matchPair hdelimiter hitem
  exact hitem.andThen fun _ _ hfirst => hpair.many.andThen fun _ _ hrest =>
    alike_succeed (List.rel_append hfirst (List.rel_flatten hrest))

/-- Nothing found counts as no trees on both sides. -/
theorem alike_getD {found found' : Option (List Tree)}
    (h : Option.Rel (List.Forall₂ T) found found') :
    List.Forall₂ T (found.getD []) (found'.getD []) := by
  cases h with
  | some htrees => exact htrees
  | none => exact .nil

/-- Like items with a trailing delimiter, allowed or not, are alike. -/
theorem alike_matchTrailing (allowed : Bool) (hitems : Matcher.Alike (List.Forall₂ T) p p')
    (hdelimiter : Matcher.Alike (List.Forall₂ T) q q') :
    Matcher.Alike (List.Forall₂ T) (matchTrailing allowed p q) (matchTrailing allowed p' q') := by
  cases allowed with
  | false => exact hitems
  | true =>
    exact hitems.andThen fun _ _ htrees => hdelimiter.optional.andThen fun _ _ htrailing =>
      alike_succeed (List.rel_append htrees (alike_getD htrailing))

/-- Like items that may be missing are alike. -/
theorem alike_matchOrNothing (allowed : Bool) (hitems : Matcher.Alike (List.Forall₂ T) p p') :
    Matcher.Alike (List.Forall₂ T) (matchOrNothing allowed p) (matchOrNothing allowed p') := by
  cases allowed with
  | false => exact hitems
  | true => exact hitems.optional.andThen fun _ _ hfound => alike_succeed (alike_getD hfound)

end Matchers

/-- Like shapes put together with like shapes are alike. -/
theorem alike_append (ha : Alike R a a') (hb : Alike R b b') : Alike R (a ++ b) (a' ++ b') := by
  intro T term term' hterms
  rw [matcher_append, matcher_append]
  exact alike_matchPair (ha T term term' hterms) (hb T term term' hterms)

/-- Like shapes are alternatives of like choices, if neither is a choice without alternatives, or
both are. -/
theorem alike_or (ha : Alike R a a') (hb : Alike R b b')
    (hempty : a.alternatives = [] ↔ a'.alternatives = [])
    (hempty' : b.alternatives = [] ↔ b'.alternatives = []) : Alike R (a ||| b) (a' ||| b') := by
  intro T term term' hterms
  have hfirst := ha T term term' hterms
  have hsecond := hb T term term' hterms
  by_cases hnone : a.alternatives = []
  · rwa [matcher_or_of_left term hnone, matcher_or_of_left term' (hempty.mp hnone)]
  · by_cases hnone' : b.alternatives = []
    · rwa [matcher_or_of_right term hnone', matcher_or_of_right term' (hempty'.mp hnone')]
    · rw [matcher_or term hnone hnone',
        matcher_or term' (mt hempty.mpr hnone) (mt hempty'.mpr hnone')]
      exact hfirst.orElse hsecond

/-- Sequences of like items are alike. -/
theorem alike_sequence (h : List.Forall₂ (Alike R) as bs) :
    Alike R (.sequence as) (.sequence bs) := by
  intro T term term' hterms
  show Matcher.Alike _ (matchAll term as) (matchAll term' bs)
  induction h with
  | nil => exact alike_succeed .nil
  | cons hfirst _ ih => exact alike_matchPair (hfirst T term term' hterms) ih

/-- Choices between like alternatives are alike. -/
theorem alike_choice (h : List.Forall₂ (Alike R) as bs) : Alike R (.choice as) (.choice bs) := by
  intro T term term' hterms
  show Matcher.Alike _ (matchFirst term as) (matchFirst term' bs)
  induction h with
  | nil => exact alike_succeed .nil
  | @cons a b rest rest' hfirst hrest ih =>
    cases hrest with
    | nil => exact hfirst T term term' hterms
    | cons _ _ => exact (hfirst T term term' hterms).orElse ih

/-- Repetitions of like items are alike. -/
theorem alike_repeated (h : Alike R a b) : Alike R (.repeated a bounds) (.repeated b bounds) := by
  intro T term term' hterms
  exact alike_matchOrNothing _ (alike_matchRepeated (h T term term' hterms) (alike_succeed .nil))

/-- Repetitions of like items with like delimiters are alike, as shapes. -/
theorem alike_separated (ha : Alike R a a') (hb : Alike R b b') :
    Alike R (.separated a b bounds) (.separated a' b' bounds) := by
  intro T term term' hterms
  have hdelimiter := hb T term term' hterms
  have hitems := alike_matchRepeated (ha T term term' hterms) hdelimiter
  exact alike_matchOrNothing _ (alike_matchTrailing _ hitems hdelimiter)

/-- A shape is like itself if its terms are related to themselves. -/
theorem alike_self {shape : Shape} (h : ∀ i ∈ shape.references, R i i) : Alike R shape shape := by
  have hpart : ∀ part ∈ shape.parts, ∀ i, part.term? = some i → R i i := fun part hmem i hi =>
    h i (List.mem_filterMap.mpr ⟨part, hmem, hi⟩)
  clear h
  induction shape with
  | empty => exact alike_empty
  | hint h => exact fun _ _ _ _ => alike_succeed .nil
  | term index => exact alike_term (hpart _ (self_mem_parts _) index rfl)
  | sequence items ih =>
    refine alike_sequence (List.forall₂_same.mpr fun item hmem => ih item hmem ?_)
    exact fun part hin => hpart part (parts_trans (mem_parts_of_sequence hmem) hin)
  | choice alternatives ih =>
    refine alike_choice (List.forall₂_same.mpr fun item hmem => ih item hmem ?_)
    exact fun part hin => hpart part (parts_trans (mem_parts_of_choice hmem) hin)
  | repeated item bounds ih =>
    refine alike_repeated (ih fun part hin => hpart part ?_)
    rw [parts]
    exact List.mem_cons_of_mem _ hin
  | separated item delimiter bounds ihItem ihDelimiter =>
    refine alike_separated (ihItem fun part hin => hpart part ?_)
      (ihDelimiter fun part hin => hpart part ?_)
    · rw [parts]
      exact List.mem_cons_of_mem _ (List.mem_append_left _ hin)
    · rw [parts]
      exact List.mem_cons_of_mem _ (List.mem_append_right _ hin)

/-- What ends with a term is not a choice. -/
theorem alternatives_append_term (shape : Shape) (index : TermIndex) :
    (shape ++ .term index).alternatives ≠ [] := by
  show (ofItems (shape.items ++ [.term index])).alternatives ≠ []
  match shape.items with
  | [] => exact List.cons_ne_nil _ _
  | [item] => exact List.cons_ne_nil _ _
  | _ :: _ :: _ => exact List.cons_ne_nil _ _

/-- Like shapes are put together one after the other. -/
theorem alike_foldl_append (hab : Alike R a b) (h : List.Forall₂ (Alike R) as bs) :
    Alike R (as.foldl (· ++ ·) a) (bs.foldl (· ++ ·) b) := by
  induction h generalizing a b with
  | nil => exact hab
  | cons hfirst _ ih => exact ih (alike_append hab hfirst)

/-- The alternatives of one shape stand in front of those of the other. -/
theorem alternatives_or (a b : Shape) : (a ||| b).alternatives = a.alternatives ++ b.alternatives :=
  rfl

/-- Like shapes are put together as alternatives, if each is a choice without alternatives when the
other one is. -/
theorem alike_foldl_or (hab : Alike R a b) (hempty : a.alternatives = [] ↔ b.alternatives = [])
    (h : List.Forall₂ (fun a b => Alike R a b ∧ (a.alternatives = [] ↔ b.alternatives = [])) as bs) :
    Alike R (as.foldl (· ||| ·) a) (bs.foldl (· ||| ·) b) := by
  induction h generalizing a b with
  | nil => exact hab
  | cons hfirst _ ih =>
    obtain ⟨hlike, hempty'⟩ := hfirst
    refine ih (alike_or hab hlike hempty hempty') ?_
    rw [alternatives_or, alternatives_or, List.append_eq_nil_iff, List.append_eq_nil_iff, hempty,
      hempty']

/-! ## Forms -/

mutual

/-- The form of a shape: the shape with one and the same term in place of all terms. -/
def form : Shape → Shape
  | .empty => .empty
  | .hint h => .hint h
  | .term _ => .term ⟨0, by decide⟩
  | .sequence items => .sequence (formOfAll items)
  | .choice alternatives => .choice (formOfAll alternatives)
  | .repeated item bounds => .repeated item.form bounds
  | .separated item delimiter bounds => .separated item.form delimiter.form bounds

/-- The forms of the shapes of a list. -/
def formOfAll : List Shape → List Shape
  | [] => []
  | shape :: rest => shape.form :: formOfAll rest

end

/-- Forms are taken shape by shape. -/
theorem formOfAll_eq_map (shapes : List Shape) : formOfAll shapes = shapes.map form := by
  induction shapes with
  | nil => rfl
  | cons shape rest ih => exact congrArg (shape.form :: ·) ih

/-- The form of a single term is a single term. -/
theorem isSome_term?_form (shape : Shape) : shape.form.term?.isSome = shape.term?.isSome := by
  cases shape <;> rfl

/-- The items of a form are the forms of the items. -/
theorem items_form (shape : Shape) : shape.form.items = shape.items.map form := by
  cases shape with
  | sequence items => exact formOfAll_eq_map items
  | _ => rfl

/-- The form of items put together is their forms put together. -/
theorem form_ofItems (items : List Shape) : (ofItems items).form = ofItems (items.map form) := by
  match items with
  | [] => rfl
  | [item] => rfl
  | _ :: _ :: _ => exact congrArg sequence (formOfAll_eq_map _)

/-- The form of two shapes put together is their forms put together. -/
theorem form_append (a b : Shape) : (a ++ b).form = a.form ++ b.form := by
  show (ofItems (a.items ++ b.items)).form = ofItems (a.form.items ++ b.form.items)
  rw [form_ofItems, items_form, items_form, List.map_append]

/-- The alternatives of a form are the forms of the alternatives. -/
theorem alternatives_form (shape : Shape) :
    shape.form.alternatives = shape.alternatives.map form := by
  cases shape with
  | choice alternatives => exact formOfAll_eq_map alternatives
  | _ => rfl

/-- The form of two shapes as alternatives is their forms as alternatives. -/
theorem form_or (a b : Shape) : (a ||| b).form = a.form ||| b.form := by
  show choice (formOfAll (a.alternatives ++ b.alternatives)) = _
  rw [formOfAll_eq_map, List.map_append, ← alternatives_form, ← alternatives_form]
  rfl

/-- A form has no alternatives exactly if the shape has none. -/
theorem alternatives_form_eq_nil {shape : Shape} :
    shape.form.alternatives = [] ↔ shape.alternatives = [] := by
  rw [alternatives_form, List.map_eq_nil_iff]

/-- The form of any number of shapes put together is their forms put together. -/
theorem form_foldl_append (shape : Shape) (shapes : List Shape) :
    (shapes.foldl (· ++ ·) shape).form = (shapes.map form).foldl (· ++ ·) shape.form := by
  induction shapes generalizing shape with
  | nil => rfl
  | cons next rest ih =>
    rw [List.foldl_cons, ih, form_append]
    rfl

/-- The form of any number of shapes as alternatives is their forms as alternatives. -/
theorem form_foldl_or (shape : Shape) (shapes : List Shape) :
    (shapes.foldl (· ||| ·) shape).form = (shapes.map form).foldl (· ||| ·) shape.form := by
  induction shapes generalizing shape with
  | nil => rfl
  | cons next rest ih =>
    rw [List.foldl_cons, ih, form_or]
    rfl

end Shape

end TypedGrammar
