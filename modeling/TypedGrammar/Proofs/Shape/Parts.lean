import TypedGrammar.Shape.Basic

/-!
# Parts of shapes

Induction over shapes in which the items of a sequence and the alternatives of a choice come as
members of a list, and the laws of the parts of a shape: a shape is a part of itself, and a part of
a part is a part.
-/

namespace TypedGrammar

namespace Shape

/-- **Induction over shapes.**  What holds of the items of a sequence, the alternatives of a choice,
and the item and the delimiter of a repetition carries over to the whole. -/
@[induction_eliminator]
theorem induction {motive : Shape → Prop} (empty : motive .empty)
    (term : ∀ index, motive (.term index))
    (sequence : ∀ items, (∀ s ∈ items, motive s) → motive (.sequence items))
    (choice : ∀ alternatives, (∀ s ∈ alternatives, motive s) → motive (.choice alternatives))
    (repeated : ∀ item bounds, motive item → motive (.repeated item bounds))
    (separated : ∀ item delimiter bounds, motive item → motive delimiter →
      motive (.separated item delimiter bounds))
    (hint : ∀ h, motive (.hint h)) (shape : Shape) : motive shape := by
  refine Shape.rec (motive_2 := fun shapes => ∀ s ∈ shapes, motive s) empty term sequence choice
    repeated separated hint ?_ ?_ shape
  · intro s hs
    cases hs
  · intro head tail hhead htail s hs
    rcases List.mem_cons.mp hs with rfl | hs
    · exact hhead
    · exact htail s hs

theorem mem_partsOfAll {shapes : List Shape} {part : Shape} :
    part ∈ partsOfAll shapes ↔ ∃ s ∈ shapes, part ∈ s.parts := by
  induction shapes with
  | nil => simp [partsOfAll]
  | cons s rest ih => simp [partsOfAll, ih]

/-- A shape is a part of itself. -/
theorem self_mem_parts (shape : Shape) : shape ∈ shape.parts := by
  cases shape <;> simp [parts]

theorem mem_parts_of_sequence {items : List Shape} {s : Shape} (hs : s ∈ items) :
    s ∈ (sequence items).parts := by
  rw [parts]
  exact List.mem_cons_of_mem _ (mem_partsOfAll.mpr ⟨s, hs, self_mem_parts s⟩)

theorem mem_parts_of_choice {alternatives : List Shape} {s : Shape} (hs : s ∈ alternatives) :
    s ∈ (choice alternatives).parts := by
  rw [parts]
  exact List.mem_cons_of_mem _ (mem_partsOfAll.mpr ⟨s, hs, self_mem_parts s⟩)

/-- A shape refers to the terms among its parts. -/
theorem mem_references {shape : Shape} {index : TermIndex} :
    index ∈ shape.references ↔ .term index ∈ shape.parts := by
  unfold references
  rw [List.mem_filterMap]
  constructor
  · rintro ⟨part, hpart, hterm⟩
    cases part with
    | term found =>
      obtain rfl := Option.some.inj hterm
      exact hpart
    | _ => cases hterm
  · exact fun hpart => ⟨_, hpart, rfl⟩

/-- A part of a part is a part. -/
theorem parts_trans {shape part : Shape} (hpart : part ∈ shape.parts) :
    part.parts ⊆ shape.parts := by
  induction shape with
  | empty | term | hint =>
    obtain rfl := List.mem_singleton.mp hpart
    exact List.Subset.refl _
  | sequence shapes ih | choice shapes ih =>
    rw [parts] at hpart
    rcases List.mem_cons.mp hpart with rfl | hpart
    · exact List.Subset.refl _
    · obtain ⟨s, hs, hpart⟩ := mem_partsOfAll.mp hpart
      intro p hp
      rw [parts]
      exact List.mem_cons_of_mem _ (mem_partsOfAll.mpr ⟨s, hs, ih s hs hpart hp⟩)
  | repeated item bounds ih =>
    rw [parts] at hpart
    rcases List.mem_cons.mp hpart with rfl | hpart
    · exact List.Subset.refl _
    · intro p hp
      rw [parts]
      exact List.mem_cons_of_mem _ (ih hpart hp)
  | separated item delimiter bounds ihItem ihDelimiter =>
    rw [parts] at hpart
    rcases List.mem_cons.mp hpart with rfl | hpart
    · exact List.Subset.refl _
    · intro p hp
      rw [parts]
      rcases List.mem_append.mp hpart with hpart | hpart
      · exact List.mem_cons_of_mem _ (List.mem_append_left _ (ihItem hpart hp))
      · exact List.mem_cons_of_mem _ (List.mem_append_right _ (ihDelimiter hpart hp))

/-- The item and the delimiter of a repetition; without a delimiter nothing stands between the
items. -/
def repetition? : Shape → Option (Shape × Shape)
  | repeated item _ => some (item, empty)
  | separated item delimiter _ => some (item, delimiter)
  | _ => none

theorem mem_parts_of_repetition {shape item delimiter : Shape}
    (h : shape.repetition? = some (item, delimiter)) :
    item ∈ shape.parts ∧ (delimiter = .empty ∨ delimiter ∈ shape.parts) := by
  cases shape with
  | repeated item' bounds =>
    injection h with h
    injection h with hitem hdelimiter
    subst hitem hdelimiter
    refine ⟨?_, Or.inl rfl⟩
    rw [parts]
    exact List.mem_cons_of_mem _ (self_mem_parts _)
  | separated item' delimiter' bounds =>
    injection h with h
    injection h with hitem hdelimiter
    subst hitem hdelimiter
    rw [parts]
    refine ⟨?_, Or.inr ?_⟩
    · exact List.mem_cons_of_mem _ (List.mem_append_left _ (self_mem_parts _))
    · exact List.mem_cons_of_mem _ (List.mem_append_right _ (self_mem_parts _))
  | _ => cases h

end Shape

end TypedGrammar
