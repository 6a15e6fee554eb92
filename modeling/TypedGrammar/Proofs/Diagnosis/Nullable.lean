import Mathlib.Data.Finset.Card
import TypedGrammar.Language.Diagnosis
import TypedGrammar.Proofs.OrderedChoice.Attempts

/-!
# Matching nothing

The shapes that may match without consuming input are said by a relation, which covers every
evaluation.  The terms that the diagnosis calls nullable are closed under the rules, and so they
contain all that may be nothing, unless a choice without alternatives is part of a rule: such a
choice matches nothing, but the diagnosis does not say so.
-/

namespace TypedGrammar

/-! ## Sets of terms

Iterating a monotone step from the empty set ends in a set that the step leaves unchanged: each
step before that adds a term, and there are only so many. -/

namespace TermSet

variable {a b c set : TermSet} {step : TermSet → TermSet} {size : ℕ}

/-- All terms of one set are in another one. -/
def Within (a b : TermSet) : Prop :=
  ∀ n, a.getD n false = true → b.getD n false = true

theorem getD_of_size_le (h : set.size ≤ size) : set.getD size false = false := by
  rw [Array.getD_eq_getD_getElem?, Array.getElem?_eq_none h]
  rfl

/-- Sets of the same size with the same terms are the same. -/
theorem eq_of_within (hsize : a.size = b.size) (hab : a.Within b) (hba : b.Within a) : a = b := by
  refine Array.ext hsize fun n hn hn' => ?_
  have hget : ∀ (set : TermSet) (h : n < set.size), set.getD n false = set[n] := by
    intro set h
    rw [Array.getD_eq_getD_getElem?, Array.getElem?_eq_getElem h, Option.getD_some]
  rw [← hget a hn, ← hget b hn']
  exact Bool.eq_iff_iff.mpr ⟨hab n, hba n⟩

/-- The terms that are not in a set. -/
def missing (size : ℕ) (set : TermSet) : Finset ℕ :=
  (Finset.range size).filter fun n => set.getD n false = false

theorem missing_subset (h : a.Within b) : missing size b ⊆ missing size a := by
  intro n hn
  obtain ⟨hlt, hb⟩ := Finset.mem_filter.mp hn
  refine Finset.mem_filter.mpr ⟨hlt, ?_⟩
  rw [Bool.eq_false_iff] at hb ⊢
  exact fun ha => hb (h n ha)

/-- If the terms that are missing stay the same, nothing was added. -/
theorem within_of_missing_eq (hsize : b.size ≤ size) (h : missing size a = missing size b) :
    b.Within a := by
  intro n hb
  have hlt : n < size := by
    by_contra hle
    rw [getD_of_size_le (by omega)] at hb
    cases hb
  by_contra ha
  have hmem : n ∈ missing size a :=
    Finset.mem_filter.mpr ⟨Finset.mem_range.mpr hlt, Bool.eq_false_iff.mpr ha⟩
  rw [h] at hmem
  have hfalse := (Finset.mem_filter.mp hmem).2
  rw [hb] at hfalse
  cases hfalse

/-- What a step keeps is kept by all steps. -/
theorem iterate_keeps {P : TermSet → Prop} (hstep : ∀ {set}, P set → P (step set)) (hset : P set)
    (fuel : ℕ) : P (iterate step fuel set) := by
  induction fuel generalizing set with
  | zero => exact hset
  | succ fuel ih =>
    rw [iterate]
    by_cases hnext : step set = set
    · rw [if_pos hnext]
      exact hset
    · rw [if_neg hnext]
      exact ih (hstep hset)

/-- **Enough steps.**  With as many steps as terms are missing, a set that grows in each step
reaches a set that the step leaves unchanged. -/
theorem iterate_fixed {P : TermSet → Prop} (hsize : ∀ {set}, P set → set.size = size)
    (hstep : ∀ {set}, P set → P (step set)) (hgrows : ∀ {set}, P set → set.Within (step set))
    {fuel : ℕ} (hset : P set) (hfuel : (missing size set).card ≤ fuel) :
    step (iterate step fuel set) = iterate step fuel set := by
  -- If nothing goes missing any more, the step has nothing to add.
  have hnew : ∀ {set}, P set → missing size (step set) = missing size set → step set = set := by
    intro set hset hmissing
    have hsame := (hsize (hstep hset)).trans (hsize hset).symm
    have hback := within_of_missing_eq (hsize (hstep hset)).le hmissing.symm
    exact eq_of_within hsame hback (hgrows hset)
  induction fuel generalizing set with
  | zero =>
    rw [iterate]
    have hnone : missing size set = ∅ := Finset.card_eq_zero.mp (Nat.le_zero.mp hfuel)
    have hnone' : missing size (step set) = ∅ :=
      Finset.subset_empty.mp (hnone ▸ missing_subset (hgrows hset))
    exact hnew hset (hnone'.trans hnone.symm)
  | succ fuel ih =>
    rw [iterate]
    by_cases hnext : step set = set
    · rw [if_pos hnext]
      exact hnext
    · rw [if_neg hnext]
      -- The step has added a term, so fewer are missing now.
      have hfewer : missing size (step set) ⊆ missing size set := missing_subset (hgrows hset)
      have hlt := Finset.card_lt_card (hfewer.ssubset_of_ne (mt (hnew hset) hnext))
      exact ih (hstep hset) (by omega)

/-- Fewer terms are missing than there are. -/
theorem card_missing_le : (missing size set).card ≤ size :=
  calc (missing size set).card
      ≤ (Finset.range size).card := Finset.card_le_card (Finset.filter_subset _ _)
    _ = size := Finset.card_range size

theorem leastFixpoint_fixed (hmono : ∀ {a b}, a.Within b → (step a).Within (step b))
    (hsize : ∀ set, (step set).size = size) :
    step (leastFixpoint step size) = leastFixpoint step size := by
  refine iterate_fixed (P := fun set => set.size = size ∧ set.Within (step set)) And.left
    (fun h => ⟨hsize _, hmono h.2⟩) And.right ⟨Array.size_replicate, ?_⟩ card_missing_le
  intro n hn
  rw [Array.getD_eq_getD_getElem?, Array.getElem?_replicate] at hn
  split at hn <;> cases hn

end TermSet

/-! ## Nullable terms -/

/-! ### The analysis -/

namespace Shape

variable {nullable : TermSet} {shapes : List Shape}

theorem allNullable_iff :
    allNullable nullable shapes = true ↔ ∀ shape ∈ shapes, shape.isNullable nullable = true := by
  induction shapes with
  | nil => simp [allNullable]
  | cons shape rest ih => simp [allNullable, ih]

theorem anyNullable_iff :
    anyNullable nullable shapes = true ↔ ∃ shape ∈ shapes, shape.isNullable nullable = true := by
  induction shapes with
  | nil => simp [anyNullable]
  | cons shape rest ih => simp [anyNullable, ih]

/-- With more terms that are nullable, more shapes are. -/
theorem isNullable_mono {a b : TermSet} (hab : a.Within b) (shape : Shape)
    (h : shape.isNullable a = true) : shape.isNullable b = true := by
  induction shape with
  | empty => rfl
  | hint hint => rfl
  | term index => exact hab index.value h
  | sequence items ih =>
    rw [isNullable, allNullable_iff] at h ⊢
    exact fun s hs => ih s hs (h s hs)
  | choice alternatives ih =>
    rw [isNullable, anyNullable_iff] at h ⊢
    obtain ⟨s, hs, hnull⟩ := h
    exact ⟨s, hs, ih s hs hnull⟩
  | repeated item bounds ih =>
    rw [isNullable, Bool.or_eq_true] at h ⊢
    exact h.imp id ih
  | separated item delimiter bounds ih _ =>
    rw [isNullable, Bool.or_eq_true] at h ⊢
    exact h.imp id ih

end Shape

theorem Term.isNullable_mono {a b : TermSet} (hab : a.Within b) (term : Term)
    (h : term.isNullable a = true) : term.isNullable b = true := by
  unfold Term.isNullable at h ⊢
  split at h
  · exact h
  · exact Shape.isNullable_mono hab _ h
  · cases h

namespace Language

/-- The terms of a language that the diagnosis calls nullable. -/
def nullable (language : Language) : TermSet :=
  Diagnosis.nullableTerms language.terms

variable {language : Language}

/-- What the analysis says of each number is what it finds about the term of this number. -/
theorem has_nullable_eq (index : TermIndex) :
    language.nullable.has index =
      ((language.term? index).map (·.isNullable language.nullable)).getD false := by
  have hmap : ∀ (set : TermSet) n, (language.terms.map (·.isNullable set)).getD n false =
      (language.terms[n]?.map (·.isNullable set)).getD false := by
    intro set n
    rw [Array.getD_eq_getD_getElem?, Array.getElem?_map]
  have hmono : ∀ {a b : TermSet}, a.Within b → TermSet.Within
      (language.terms.map (·.isNullable a)) (language.terms.map (·.isNullable b)) := by
    intro a b hab n hn
    rw [hmap] at hn ⊢
    cases hget : language.terms[n]? with
    | none =>
      rw [hget] at hn
      cases hn
    | some term =>
      rw [hget] at hn
      exact Term.isNullable_mono hab term hn
  -- The terms that are called nullable are the least set that the analysis does not add to.
  have hfixed : language.terms.map (·.isNullable language.nullable) = language.nullable :=
    TermSet.leastFixpoint_fixed hmono fun set => Array.size_map
  have hindex := hmap language.nullable index.value
  rw [hfixed] at hindex
  rw [TermSet.has, hindex]
  rfl

/-- **The analysis is closed.**  A term is called nullable exactly if what it matches is. -/
theorem has_nullable {index : TermIndex} {term : Term}
    (hterm : language.term? index = some term) :
    language.nullable.has index = term.isNullable language.nullable := by
  rw [has_nullable_eq, hterm]
  rfl

/-! ### Evaluations that consume nothing -/

/-- A shape may be nothing: it may match without consuming input. -/
inductive Vanishes (language : Language) : Shape → Prop
  | empty : Vanishes language .empty
  | hint {hint} : Vanishes language (.hint hint)
  | key {index term} :
      language.term? index = some term → term.kind = .key "" → Vanishes language (.term index)
  | rule {index term shape} :
      language.Defines index term shape → Vanishes language shape → Vanishes language (.term index)
  | sequence {items} : (∀ s ∈ items, Vanishes language s) → Vanishes language (.sequence items)
  | noAlternative : Vanishes language (.choice [])
  | choice {alternatives shape} :
      shape ∈ alternatives → Vanishes language shape → Vanishes language (.choice alternatives)
  | noItems {item bounds} :
      bounds.allowEmpty = true → Vanishes language (.repeated item bounds)
  | noSeparatedItems {item delimiter bounds} :
      bounds.allowEmpty = true → Vanishes language (.separated item delimiter bounds)
  | repeated {item bounds} : Vanishes language item → Vanishes language (.repeated item bounds)
  | separated {item delimiter bounds} :
      Vanishes language item → Vanishes language (.separated item delimiter bounds)

/-- A task may be nothing. -/
def VanishesAs (language : Language) : Task → Prop
  | .term index => language.Vanishes (.term index)
  | .shape shape => language.Vanishes shape
  | .all shapes => ∀ shape ∈ shapes, language.Vanishes shape
  | .first shape others => ∃ alternative ∈ shape :: others, language.Vanishes alternative
  | .items item _ _ => language.Vanishes item
  | .pairs _ _ => True

theorem ScansTerm.vanishes {index : TermIndex} {start : Cursor} {verdict : Verdict}
    (h : language.ScansTerm index start verdict) :
    verdict.Ends fun stop => stop = start → language.Vanishes (.term index) := by
  cases h with
  | unknown | undefined | noToken => trivial
  | token hterm hskips hscans =>
    rintro rfl
    obtain rfl := hskips.le.antisymm hscans.le
    refine .key hterm ?_
    by_contra hkind
    exact lt_irrefl _ (hscans.lt hkind)

/-- A repetition that may be empty, or whose items may be nothing, may be nothing. -/
theorem ends_orNothing {shape item : Shape} {allowed : Bool} {start : Cursor} {verdict : Verdict}
    (hallowed : allowed = true → language.Vanishes shape)
    (hitem : language.Vanishes item → language.Vanishes shape)
    (h : verdict.Ends fun stop => stop = start → language.Vanishes item) :
    (verdict.orNothing allowed start).Ends fun stop => stop = start → language.Vanishes shape := by
  cases verdict with
  | matched trees stop => exact fun hstop => hitem (h hstop)
  | failed =>
    cases allowed with
    | true => exact fun _ => hallowed rfl
    | false => trivial

/-- **Nothing but what vanishes.**  What matches without consuming input may be nothing. -/
theorem Evaluates.vanishes {room : ℕ∞} {task : Task} {start : Cursor} {verdict : Verdict}
    (h : language.Evaluates room task start verdict) :
    verdict.Ends fun stop => stop = start → language.VanishesAs task := by
  induction h with
  | scan hscan => exact hscan.vanishes
  | rule hdef _ _ ih =>
    exact Verdict.ends_map.mpr (ih.imp fun stop hshape hstop => .rule hdef (hshape hstop))
  | refused | allFail | firstFail | itemsFail => trivial
  | empty => exact fun _ => .empty
  | hint => exact fun _ => .hint
  | reference _ ih => exact ih
  | sequence _ ih => exact ih.imp fun stop hall hstop => .sequence (hall hstop)
  | noAlternative => exact fun _ => .noAlternative
  | choice _ ih =>
    refine ih.imp fun stop hfirst hstop => ?_
    obtain ⟨s, hs, hvanishes⟩ := hfirst hstop
    exact .choice hs hvanishes
  | repeated _ ih => exact ends_orNothing .noItems .repeated ih
  | separated _ ih => exact ends_orNothing .noSeparatedItems .separated ih
  | allNil => exact fun _ shape hshape => absurd hshape List.not_mem_nil
  | @allCons room shape rest start middle trees verdict h hrest ih ihRest =>
    refine Verdict.ends_map.mpr ?_
    cases verdict with
    | failed => trivial
    | matched more stop =>
      rintro rfl s hs
      -- The rest ends at the start, and so it also starts there.
      have hmiddle : middle = stop := hrest.le.antisymm h.le
      rcases List.mem_cons.mp hs with rfl | hs
      · exact ih hmiddle
      · exact ihRest hmiddle.symm s hs
  | firstMatch _ ih => exact fun hstop => ⟨_, List.mem_cons_self, ih hstop⟩
  | firstNext _ _ _ ihNext =>
    refine ihNext.imp fun stop hnext hstop => ?_
    obtain ⟨s, hs, hvanishes⟩ := hnext hstop
    exact ⟨s, List.mem_cons_of_mem _ hs, hvanishes⟩
  | items h hpairs ih _ | itemsNoTrailing h hpairs _ ih _ _ =>
    rintro rfl
    exact ih (hpairs.le.antisymm h.le)
  | itemsTrailing h hpairs hlast ih _ _ =>
    rintro rfl
    exact ih ((hpairs.le.trans hlast.le).antisymm h.le)
  | pairsEnd | pairsNext => exact fun _ => trivial

/-! ### What the analysis finds -/

/-- No choice of a rule is without alternatives. -/
def HasAlternatives (language : Language) : Prop :=
  ¬ language.HasPart (.choice [])

/-- The parts of a part of a rule have alternatives as well. -/
theorem HasPart.has_alternatives {shape : Shape} (h : language.HasPart shape)
    (halternatives : language.HasAlternatives) : .choice [] ∉ shape.parts :=
  fun hpart => halternatives (h.trans hpart)

/-- A shape without choices that have no alternatives is called nullable if it may be nothing. -/
theorem Vanishes.isNullable_of_parts {shape : Shape} (h : language.Vanishes shape)
    (halternatives : language.HasAlternatives) (hshape : .choice [] ∉ shape.parts) :
    shape.isNullable language.nullable = true := by
  induction h with
  | empty | hint => rfl
  | key hterm hkind =>
    rw [Shape.isNullable, has_nullable hterm, Term.isNullable, hkind]
    rfl
  | rule hdef _ ih =>
    rw [Shape.isNullable, has_nullable hdef.1, Term.isNullable, hdef.2]
    exact ih (hdef.hasPart.has_alternatives halternatives)
  | sequence _ ih =>
    rw [Shape.isNullable, Shape.allNullable_iff]
    exact fun s hs => ih s hs fun h => hshape (Shape.parts_trans (Shape.mem_parts_of_sequence hs) h)
  | noAlternative => exact absurd (Shape.self_mem_parts _) hshape
  | choice hs _ ih =>
    rw [Shape.isNullable, Shape.anyNullable_iff]
    exact ⟨_, hs, ih fun h => hshape (Shape.parts_trans (Shape.mem_parts_of_choice hs) h)⟩
  | noItems hallowed | noSeparatedItems hallowed => rw [Shape.isNullable, hallowed, Bool.true_or]
  | repeated _ ih | separated _ ih =>
    have hitem := fun h => hshape (Shape.parts_trans (Shape.mem_parts_of_repetition rfl).1 h)
    rw [Shape.isNullable, ih hitem, Bool.or_true]

/-- **The analysis is complete.**  If all choices have alternatives, whatever may be nothing is
called nullable. -/
theorem Vanishes.isNullable {shape : Shape} (h : language.Vanishes shape)
    (halternatives : language.HasAlternatives) (hpart : language.HasPart shape) :
    shape.isNullable language.nullable = true :=
  h.isNullable_of_parts halternatives (hpart.has_alternatives halternatives)

end Language

end TypedGrammar
