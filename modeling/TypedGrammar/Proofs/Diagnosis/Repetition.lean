import TypedGrammar.Proofs.Diagnosis.Messages
import TypedGrammar.Proofs.OrderedChoice.NestingLimit

/-!
# Repetitions of nothing

If all choices have alternatives and the diagnosis has no critical message, each repetition takes
something with each pair of a delimiter and an item, so every text has a parse.  A choice without
alternatives matches nothing without being called nullable: a repetition of it goes on forever.
-/

namespace TypedGrammar

namespace Language

open Matcher

variable {language : Language} {room : ℕ∞}

/-- The diagnosis does not see that the item and the delimiter of a repetition may both be
nothing. -/
def OverlooksRepetition (language : Language) (part : Shape) : Prop :=
  language.HasPart part ∧ ∃ item delimiter, part.repetition? = some (item, delimiter) ∧
    language.Vanishes item ∧ language.Vanishes delimiter ∧
    (item.isNullable language.nullable && delimiter.isNullable language.nullable) = false

/-- If all choices have alternatives, no repetition is overlooked. -/
theorem HasAlternatives.not_overlooksRepetition (h : language.HasAlternatives) (part : Shape) :
    ¬ language.OverlooksRepetition part := by
  rintro ⟨hpart, item, delimiter, hrepetition, hitem, hdelimiter, hnot⟩
  obtain ⟨hpartItem, hpartDelimiter⟩ := hpart.repetition hrepetition
  rw [hitem.isNullable h hpartItem, hdelimiter.isNullable h hpartDelimiter] at hnot
  cases hnot

/-- Each pair of a repetition that is not overlooked takes something. -/
theorem IsUncritical.lt_of_pair (h : language.IsUncritical)
    (hseen : ∀ part, ¬ language.OverlooksRepetition part) {item delimiter : Shape}
    {place stop : Cursor} {trees : List Tree} (hcovers : language.Covers (.pairs item delimiter))
    (hpair : language.Evaluates room (.all [delimiter, item]) place (.matched trees stop)) :
    place < stop := by
  refine hpair.le.lt_of_ne fun hsame => ?_
  -- If the pair took nothing, both of its shapes may be nothing, and that is reported.
  have hvanishes := hpair.vanishes hsame.symm
  have hdelimiter := hvanishes delimiter List.mem_cons_self
  have hitem := hvanishes item (List.mem_cons_of_mem _ List.mem_cons_self)
  obtain ⟨part, hpart, hrepetition⟩ := hcovers
  refine hseen part ⟨hpart, item, delimiter, hrepetition, hitem, hdelimiter, ?_⟩
  rw [Bool.and_eq_false_imp]
  exact h.not_nullable hpart hrepetition

/-- **Repetitions take something.**  If no repetition is overlooked and nothing critical is found,
every text has a parse, and no repetition that is attempted on its way takes a delimiter and an item
that are nothing together. -/
theorem parse?_of_isUncritical (h : language.IsUncritical)
    (hseen : ∀ part, ¬ language.OverlooksRepetition part) (text : String) :
    (language.parse? text).isSome ∧
      ∀ room opened item delimiter place trees stop,
        language.Attempts room (.term language.root) (Cursor.start text.toList) opened
          (.pairs item delimiter) place →
        language.Evaluates (room - opened) (.all [delimiter, item]) place (.matched trees stop) →
        place < stop := by
  have hpairs : ∀ room opened item delimiter place trees stop,
      language.Attempts room (.term language.root) (Cursor.start text.toList) opened
        (.pairs item delimiter) place →
      language.Evaluates (room - opened) (.all [delimiter, item]) place (.matched trees stop) →
      place < stop := by
    intro room opened item delimiter place trees stop hattempt hpair
    exact h.lt_of_pair hseen (hattempt.covers trivial) hpair
  refine ⟨?_, hpairs⟩
  rw [Option.isSome_iff_ne_none]
  intro hnone
  obtain ⟨opened, item, delimiter, place, trees, hattempt, hpair⟩ := stuck_of_parse?_eq_none hnone
  exact lt_irrefl place (hpairs _ _ _ _ _ _ _ hattempt hpair)

theorem hasAlternatives_ofRule {shape : Shape} {symbols : List (TermIndex × String)}
    (h : .choice [] ∉ shape.parts) : (ofRule shape symbols).HasAlternatives := by
  intro hpart
  rcases hasPart_ofRule hpart with hempty | hpart
  · cases hempty
  · exact h hpart

theorem hasAlternatives_parentheses : parentheses.HasAlternatives :=
  hasAlternatives_ofRule (by decide)

/-- Open parentheses are always parsed. -/
theorem parse?_parentheses : (parentheses.parse? deepParens).isSome ∧
    ∀ room opened item delimiter place trees stop,
      parentheses.Attempts room (.term parentheses.root) (Cursor.start deepParens.toList) opened
        (.pairs item delimiter) place →
      parentheses.Evaluates (room - opened) (.all [delimiter, item]) place (.matched trees stop) →
      place < stop :=
  parse?_of_isUncritical (by decide +kernel) hasAlternatives_parentheses.not_overlooksRepetition
    deepParens

/-! ## A choice without alternatives -/

/-- The language of a repetition of a choice without alternatives: `A ::= ()*`. -/
def endless : Language :=
  .ofRule (.repeated (.choice []) ⟨true, false⟩) []

/-- The repetition stalls wherever it is tried. -/
theorem stalls_endless (limit : ℕ) (start : Cursor) :
    (endless.taskMatcher limit (.shape (.repeated (.choice []) ⟨true, false⟩))).Stalls start := by
  have hempty : (endless.taskMatcher limit (.shape .empty)).Takes start [] start := by
    rw [taskMatcher, Shape.matcher]
    exact takes_succeed.mpr ⟨rfl, rfl⟩
  have hchoice : (endless.taskMatcher limit (.shape (.choice []))).Takes start [] start := by
    rw [taskMatcher, Shape.matcher, Shape.matchFirst]
    exact takes_succeed.mpr ⟨rfl, rfl⟩
  have hnil : (endless.taskMatcher limit (.all [])).Takes start [] start := by
    rw [taskMatcher, matchAll_nil]
    exact takes_succeed.mpr ⟨rfl, rfl⟩
  have hpair : (endless.taskMatcher limit (.all [.empty, .choice []])).Takes start [] start :=
    takes_matchAll_cons.mpr ⟨[], start, [], hempty,
      takes_matchAll_cons.mpr ⟨[], start, [], hchoice, hnil, rfl⟩, rfl⟩
  rw [taskMatcher_repeated, stalls_matchOrNothing]
  refine stalls_items.mpr (Or.inr ⟨[], start, hchoice, stalls_pairs.mpr (Or.inr ?_)⟩)
  exact ⟨[], start, hpair, fun hlt => absurd hlt (lt_irrefl _)⟩

/-- **An endless repetition.**  Although nothing critical is found, no text has a parse. -/
theorem parse?_endless : endless.IsUncritical ∧ ∀ text, endless.parse? text = none := by
  refine ⟨by decide +kernel, fun text => ?_⟩
  have hdef : endless.Defines endless.root ⟨"A", .rule (some _), .none, none⟩ _ := ⟨rfl, rfl⟩
  rw [parse?_eq_none_iff, stalls_matchDocument, hdef.taskMatcher]
  exact stalls_andThen.mpr (Or.inl (stalls_endless _ _))

end Language

end TypedGrammar
