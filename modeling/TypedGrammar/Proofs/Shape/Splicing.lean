import TypedGrammar.Proofs.Shape.Parts

/-!
# The algebra of shapes

Shapes that are put together by the operators are spliced: no sequence has fewer than two items,
or an item that is a sequence or empty, and no choice has fewer than two alternatives, or one that
is a choice.  On spliced shapes `++` is associative and has the empty shape on both sides as its
unit, so shapes are the same however the sums and choices in them are grouped; on others the laws
fail.
-/

namespace TypedGrammar

namespace Shape

/-- Shapes that are put together by the operators.  What they do not give is a sequence or a choice
of any given list. -/
inductive IsComposed : Shape → Prop
  | empty : IsComposed .empty
  | term (index : TermIndex) : IsComposed (.term index)
  | hint (advice : Hint) : IsComposed (.hint advice)
  | append {a b : Shape} (ha : IsComposed a) (hb : IsComposed b) : IsComposed (a ++ b)
  | or {a b : Shape} (ha : IsComposed a) (hb : IsComposed b) : IsComposed (a ||| b)
  | repeated {item : Shape} (bounds : Bounds) (h : IsComposed item) :
    IsComposed (.repeated item bounds)
  | separated {item delimiter : Shape} (bounds : Bounds) (hitem : IsComposed item)
    (hdelimiter : IsComposed delimiter) : IsComposed (.separated item delimiter bounds)

/-- An item of a sequence: neither a sequence nor empty. -/
def IsItem : Shape → Prop
  | .empty => False
  | sequence _ => False
  | _ => True

/-- An alternative of a choice: not a choice itself. -/
def IsAlternative : Shape → Prop
  | choice _ => False
  | _ => True

/-- A sequence of two items or more, a choice of two alternatives or more, or anything else. -/
def IsSpliced : Shape → Prop
  | sequence items => 2 ≤ items.length ∧ ∀ item ∈ items, item.IsItem
  | choice alternatives => 2 ≤ alternatives.length ∧ ∀ s ∈ alternatives, s.IsAlternative
  | _ => True

/-- The shape and everything in it is spliced. -/
def IsNormal (shape : Shape) : Prop :=
  ∀ part ∈ shape.parts, part.IsSpliced

variable {shape a b c : Shape} {list : List Shape}

/-- A normal shape is spliced itself. -/
theorem IsNormal.isSpliced (h : shape.IsNormal) : shape.IsSpliced :=
  h shape (self_mem_parts shape)

/-! ## Items and alternatives -/

/-- What a shape contributes to a sequence is in it. -/
theorem parts_subset_of_mem_items {item : Shape} (h : item ∈ shape.items) :
    item.parts ⊆ shape.parts := by
  cases shape with
  | empty => cases h
  | sequence items => exact parts_trans (mem_parts_of_sequence h)
  | _ =>
    obtain rfl := List.mem_singleton.mp h
    exact List.Subset.refl _

/-- What a shape contributes to a choice is in it. -/
theorem parts_subset_of_mem_alternatives {s : Shape} (h : s ∈ shape.alternatives) :
    s.parts ⊆ shape.parts := by
  cases shape with
  | choice alternatives => exact parts_trans (mem_parts_of_choice h)
  | _ =>
    obtain rfl := List.mem_singleton.mp h
    exact List.Subset.refl _

/-- No item of a spliced shape is a sequence or empty. -/
theorem IsSpliced.isItem_of_mem_items (h : shape.IsSpliced) :
    ∀ item ∈ shape.items, item.IsItem := by
  intro item hitem
  cases shape with
  | empty => cases hitem
  | sequence items => exact h.2 item hitem
  | _ =>
    obtain rfl := List.mem_singleton.mp hitem
    trivial

/-- No alternative of a spliced shape is a choice. -/
theorem IsSpliced.isAlternative_of_mem_alternatives (h : shape.IsSpliced) :
    ∀ s ∈ shape.alternatives, s.IsAlternative := by
  intro s hs
  cases shape with
  | choice alternatives => exact h.2 s hs
  | _ =>
    obtain rfl := List.mem_singleton.mp hs
    trivial

/-- What may be an item is its own only item. -/
theorem items_of_isItem (h : shape.IsItem) : shape.items = [shape] := by
  cases shape with
  | empty | sequence => exact h.elim
  | _ => rfl

/-- Items that are made into a shape are the items of this shape. -/
theorem items_ofItems (h : ∀ item ∈ list, item.IsItem) : (ofItems list).items = list := by
  match list with
  | [] => rfl
  | [item] => exact items_of_isItem (h item List.mem_cons_self)
  | _ :: _ :: _ => rfl

/-- A spliced shape consists of its items. -/
theorem ofItems_items (h : shape.IsSpliced) : ofItems shape.items = shape := by
  cases shape with
  | sequence items =>
    match items, h with
    | _ :: _ :: _, _ => rfl
  | _ => rfl

/-- The items of a sum are those of its parts, one after the other. -/
theorem items_append (ha : a.IsSpliced) (hb : b.IsSpliced) : (a ++ b).items = a.items ++ b.items :=
  items_ofItems (List.forall_mem_append.mpr ⟨ha.isItem_of_mem_items, hb.isItem_of_mem_items⟩)

/-- A spliced shape has at least one alternative. -/
theorem length_alternatives_pos (h : shape.IsSpliced) : 0 < shape.alternatives.length := by
  cases shape with
  | choice alternatives => exact Nat.lt_of_lt_of_le Nat.zero_lt_two h.1
  | _ => exact Nat.zero_lt_one

/-! ## Laws -/

/-- Sums may be grouped in any way. -/
theorem append_assoc (ha : a.IsSpliced) (hb : b.IsSpliced) (hc : c.IsSpliced) :
    a ++ b ++ c = a ++ (b ++ c) := by
  show ofItems ((a ++ b).items ++ c.items) = ofItems (a.items ++ (b ++ c).items)
  rw [items_append ha hb, items_append hb hc, List.append_assoc]

/-- Nothing before a shape leaves it as it is. -/
theorem empty_append (h : shape.IsSpliced) : empty ++ shape = shape :=
  ofItems_items h

/-- Nothing behind a shape leaves it as it is. -/
theorem append_empty (h : shape.IsSpliced) : shape ++ empty = shape := by
  show ofItems (shape.items ++ []) = shape
  rw [List.append_nil, ofItems_items h]

-- A sequence of one item is not spliced, and is not its own sum with nothing.
example (index : TermIndex) : sequence [term index] ++ empty = term index := rfl

/-- Choices may be grouped in any way. -/
theorem or_assoc (a b c : Shape) : a ||| b ||| c = a ||| (b ||| c) :=
  congrArg choice (List.append_assoc a.alternatives b.alternatives c.alternatives)

/-! ## Normal forms -/

/-- A sequence is normal if it is spliced and its items are normal. -/
theorem isNormal_sequence :
    (sequence list).IsNormal ↔ 2 ≤ list.length ∧ ∀ item ∈ list, item.IsItem ∧ item.IsNormal := by
  unfold IsNormal
  simp only [parts, List.forall_mem_cons, mem_partsOfAll]
  constructor
  · rintro ⟨⟨hlength, hitems⟩, hparts⟩
    exact ⟨hlength, fun item hitem =>
      ⟨hitems item hitem, fun part hpart => hparts part ⟨item, hitem, hpart⟩⟩⟩
  · rintro ⟨hlength, hitems⟩
    refine ⟨⟨hlength, fun item hitem => (hitems item hitem).1⟩, ?_⟩
    rintro part ⟨item, hitem, hpart⟩
    exact (hitems item hitem).2 part hpart

/-- A choice is normal if it is spliced and its alternatives are normal. -/
theorem isNormal_choice :
    (choice list).IsNormal ↔ 2 ≤ list.length ∧ ∀ s ∈ list, s.IsAlternative ∧ s.IsNormal := by
  unfold IsNormal
  simp only [parts, List.forall_mem_cons, mem_partsOfAll]
  constructor
  · rintro ⟨⟨hlength, halternatives⟩, hparts⟩
    exact ⟨hlength, fun s hs =>
      ⟨halternatives s hs, fun part hpart => hparts part ⟨s, hs, hpart⟩⟩⟩
  · rintro ⟨hlength, halternatives⟩
    refine ⟨⟨hlength, fun s hs => (halternatives s hs).1⟩, ?_⟩
    rintro part ⟨s, hs, hpart⟩
    exact (halternatives s hs).2 part hpart

/-- A repetition is normal if its item is. -/
theorem isNormal_repeated {item : Shape} {bounds : Bounds} :
    (repeated item bounds).IsNormal ↔ item.IsNormal := by
  unfold IsNormal
  simp only [parts, List.forall_mem_cons]
  exact ⟨fun h => h.2, fun h => ⟨trivial, h⟩⟩

/-- A repetition with delimiters is normal if its item and its delimiter are. -/
theorem isNormal_separated {item delimiter : Shape} {bounds : Bounds} :
    (separated item delimiter bounds).IsNormal ↔ item.IsNormal ∧ delimiter.IsNormal := by
  unfold IsNormal
  simp only [parts, List.forall_mem_cons, List.forall_mem_append]
  exact ⟨fun h => h.2, fun h => ⟨trivial, h⟩⟩

/-- Items of normal shapes make a normal shape: nothing, one of them, or their sequence. -/
theorem isNormal_ofItems (h : ∀ item ∈ list, item.IsItem ∧ item.IsNormal) :
    (ofItems list).IsNormal := by
  match list with
  | [] => exact fun part hpart => List.mem_singleton.mp hpart ▸ trivial
  | [item] => exact (h item List.mem_cons_self).2
  | first :: second :: rest => exact isNormal_sequence.mpr ⟨Nat.le_add_left 2 rest.length, h⟩

/-- A normal shape has normal items. -/
theorem IsNormal.items (h : shape.IsNormal) : ∀ item ∈ shape.items, item.IsItem ∧ item.IsNormal :=
  fun item hitem => ⟨h.isSpliced.isItem_of_mem_items item hitem,
    fun part hpart => h part (parts_subset_of_mem_items hitem hpart)⟩

/-- A normal shape has normal alternatives. -/
theorem IsNormal.alternatives (h : shape.IsNormal) :
    ∀ s ∈ shape.alternatives, s.IsAlternative ∧ s.IsNormal :=
  fun s hs => ⟨h.isSpliced.isAlternative_of_mem_alternatives s hs,
    fun part hpart => h part (parts_subset_of_mem_alternatives hs hpart)⟩

/-- The sum of normal shapes is normal. -/
theorem IsNormal.append (ha : a.IsNormal) (hb : b.IsNormal) : (a ++ b).IsNormal :=
  isNormal_ofItems (List.forall_mem_append.mpr ⟨ha.items, hb.items⟩)

/-- The choice between normal shapes is normal. -/
theorem IsNormal.or (ha : a.IsNormal) (hb : b.IsNormal) : (a ||| b).IsNormal := by
  refine isNormal_choice.mpr ⟨?_, List.forall_mem_append.mpr ⟨ha.alternatives, hb.alternatives⟩⟩
  have := length_alternatives_pos ha.isSpliced
  have := length_alternatives_pos hb.isSpliced
  rw [List.length_append]
  omega

/-- **The normal form.**  Each operator keeps it. -/
theorem IsComposed.isNormal (h : shape.IsComposed) : shape.IsNormal := by
  induction h with
  | empty | term | hint => exact fun part hpart => List.mem_singleton.mp hpart ▸ trivial
  | append _ _ iha ihb => exact iha.append ihb
  | or _ _ iha ihb => exact iha.or ihb
  | repeated bounds _ ih => exact isNormal_repeated.mpr ih
  | separated bounds _ _ ihItem ihDelimiter => exact isNormal_separated.mpr ⟨ihItem, ihDelimiter⟩

theorem IsComposed.isSpliced (h : shape.IsComposed) : shape.IsSpliced :=
  h.isNormal.isSpliced

/-- A sequence of two items or more is the sum of its first item and the rest. -/
theorem ofItems_cons (h : ∀ item ∈ a :: list, item.IsItem) :
    ofItems (a :: list) = a ++ ofItems list := by
  obtain ⟨ha, hlist⟩ := List.forall_mem_cons.mp h
  show _ = ofItems (a.items ++ (ofItems list).items)
  rw [items_of_isItem ha, items_ofItems hlist, List.singleton_append]

/-- Items that are composed are put together to a composed shape. -/
theorem isComposed_ofItems (h : ∀ item ∈ list, item.IsItem) (hcomposed : ∀ s ∈ list, s.IsComposed) :
    (ofItems list).IsComposed := by
  induction list with
  | nil => exact .empty
  | cons item rest ih =>
    rw [ofItems_cons h]
    exact .append (hcomposed item List.mem_cons_self) (ih (List.forall_mem_cons.mp h).2
      (List.forall_mem_cons.mp hcomposed).2)

/-- Alternatives one by one make a choice. -/
theorem foldl_or (alternatives : List Shape) (h : ∀ s ∈ list, s.IsAlternative) :
    list.foldl (· ||| ·) (choice alternatives) = choice (alternatives ++ list) := by
  induction list generalizing alternatives with
  | nil => rw [List.foldl_nil, List.append_nil]
  | cons s rest ih =>
    obtain ⟨hs, hrest⟩ := List.forall_mem_cons.mp h
    have hor : choice alternatives ||| s = choice (alternatives ++ [s]) := by
      cases s with
      | choice _ => exact hs.elim
      | _ => rfl
    rw [List.foldl_cons, hor, ih _ hrest, List.append_assoc, List.singleton_append]

/-- Composed shapes, one by one, make a composed choice. -/
theorem isComposed_foldl_or (h : shape.IsComposed) (hlist : ∀ s ∈ list, s.IsComposed) :
    (list.foldl (· ||| ·) shape).IsComposed := by
  induction list generalizing shape with
  | nil => exact h
  | cons s rest ih =>
    exact ih (.or h (hlist s List.mem_cons_self)) (List.forall_mem_cons.mp hlist).2

/-- **Composed shapes.**  The operators give the shapes in normal form, and no others. -/
theorem isComposed_iff_isNormal : shape.IsComposed ↔ shape.IsNormal := by
  refine ⟨IsComposed.isNormal, fun h => ?_⟩
  induction shape with
  | empty => exact .empty
  | term index => exact .term index
  | hint advice => exact .hint advice
  | repeated item bounds ih => exact .repeated bounds (ih (isNormal_repeated.mp h))
  | separated item delimiter bounds ihItem ihDelimiter =>
    obtain ⟨hitem, hdelimiter⟩ := isNormal_separated.mp h
    exact .separated bounds (ihItem hitem) (ihDelimiter hdelimiter)
  | sequence items ih =>
    obtain ⟨hlength, hitems⟩ := isNormal_sequence.mp h
    have hcomposed := isComposed_ofItems (fun item hitem => (hitems item hitem).1)
      fun item hitem => ih item hitem (hitems item hitem).2
    match items, hlength with
    | _ :: _ :: _, _ => exact hcomposed
  | choice alternatives ih =>
    obtain ⟨hlength, halternatives⟩ := isNormal_choice.mp h
    match alternatives, hlength with
    | first :: second :: rest, _ =>
      obtain ⟨hfirst, hothers⟩ := List.forall_mem_cons.mp halternatives
      obtain ⟨hsecond, hrest⟩ := List.forall_mem_cons.mp hothers
      -- The first two alternatives are no choices, so they are put together to a choice of both.
      have hor : first ||| second = choice [first, second] := by
        cases first with
        | choice _ => exact hfirst.1.elim
        | _ => cases second with
          | choice _ => exact hsecond.1.elim
          | _ => rfl
      have hchoice :
          choice (first :: second :: rest) = rest.foldl (· ||| ·) (first ||| second) := by
        rw [hor, foldl_or _ fun s hs => (hrest s hs).1]
        rfl
      rw [hchoice]
      have hall : ∀ s ∈ first :: second :: rest, s.IsComposed := fun s hs =>
        ih s hs (halternatives s hs).2
      obtain ⟨hfirst', hothers'⟩ := List.forall_mem_cons.mp hall
      obtain ⟨hsecond', hrest'⟩ := List.forall_mem_cons.mp hothers'
      exact isComposed_foldl_or (.or hfirst' hsecond') hrest'

/-! ## Sums and choices of lists -/

/-- One after the other, from the first to the last. -/
def sum (shapes : List Shape) : Shape :=
  shapes.foldl (· ++ ·) .empty

/-- Composed shapes, one by one, make a composed sum. -/
theorem isComposed_foldl_append (h : shape.IsComposed) (hlist : ∀ s ∈ list, s.IsComposed) :
    (list.foldl (· ++ ·) shape).IsComposed := by
  induction list generalizing shape with
  | nil => exact h
  | cons s rest ih =>
    exact ih (.append h (hlist s List.mem_cons_self)) (List.forall_mem_cons.mp hlist).2

/-- The sum of composed shapes is composed. -/
theorem isComposed_sum (h : ∀ s ∈ list, s.IsComposed) : (sum list).IsComposed :=
  isComposed_foldl_append .empty h

/-- A single shape is its own sum. -/
theorem sum_singleton (h : shape.IsComposed) : sum [shape] = shape :=
  empty_append h.isSpliced

theorem sum_pair (ha : a.IsComposed) : sum [a, b] = a ++ b := by
  show empty ++ a ++ b = a ++ b
  rw [empty_append ha.isSpliced]

/-- What stands before a sum may be drawn into it. -/
theorem append_sum (ha : a.IsComposed) (h : ∀ s ∈ list, s.IsComposed) :
    a ++ sum list = list.foldl (· ++ ·) a := by
  have hgeneral : ∀ (b : Shape), b.IsComposed →
      a ++ list.foldl (· ++ ·) b = list.foldl (· ++ ·) (a ++ b) := by
    induction list with
    | nil => exact fun b _ => rfl
    | cons s rest ih =>
      intro b hb
      obtain ⟨hs, hrest⟩ := List.forall_mem_cons.mp h
      rw [List.foldl_cons, List.foldl_cons, ih hrest (b ++ s) (.append hb hs),
        append_assoc ha.isSpliced hb.isSpliced hs.isSpliced]
  rw [sum, hgeneral .empty .empty, append_empty ha.isSpliced]

/-- A sum among others may be spliced into them. -/
theorem sum_splice {xs ys : List Shape} (zs : List Shape) (hxs : ∀ s ∈ xs, s.IsComposed)
    (hys : ∀ s ∈ ys, s.IsComposed) : sum (xs ++ sum ys :: zs) = sum (xs ++ ys ++ zs) := by
  have hsum : sum xs ++ sum ys = ys.foldl (· ++ ·) (sum xs) := append_sum (isComposed_sum hxs) hys
  calc sum (xs ++ sum ys :: zs) = zs.foldl (· ++ ·) (sum xs ++ sum ys) := by
        rw [sum, List.foldl_append, List.foldl_cons]
        rfl
    _ = zs.foldl (· ++ ·) (ys.foldl (· ++ ·) (sum xs)) := by rw [hsum]
    _ = sum (xs ++ ys ++ zs) := by
        rw [sum, sum, List.foldl_append, List.foldl_append]

/-- What stands before a choice may be drawn into it. -/
theorem or_foldl (a b : Shape) (list : List Shape) :
    a ||| list.foldl (· ||| ·) b = list.foldl (· ||| ·) (a ||| b) := by
  induction list generalizing b with
  | nil => rfl
  | cons s rest ih => rw [List.foldl_cons, List.foldl_cons, ih, or_assoc]

end Shape

end TypedGrammar
