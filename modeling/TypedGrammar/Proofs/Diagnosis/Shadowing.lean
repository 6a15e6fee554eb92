import Mathlib.Data.List.TakeWhile
import TypedGrammar.Proofs.Diagnosis.AlwaysMatching
import TypedGrammar.Proofs.Diagnosis.Messages
import TypedGrammar.Proofs.Diagnosis.LeftRecursion

/-!
# Alternatives that are never tried

Behind an alternative that never fails, ordered choice tries none.  The diagnosis warns of the
choices of rules in which an alternative before the last one is called nullable, and these are the
choices in which such an alternative always matches, as long as it does not get stuck in a
repetition.  A repetition of nothing is called nullable, but it has no match at all.
-/

namespace TypedGrammar

namespace Language

/-- An alternative of a choice is tried at a place if all alternatives before it fail there. -/
def TriesAlternative (language : Language) (alternatives : List Shape) (n : ℕ) (start : Cursor) :
    Prop :=
  n < alternatives.length ∧
    ∀ earlier ∈ alternatives.take n, language.Evaluates ⊤ (.shape earlier) start .failed

/-- Behind a nullable alternative none is ever tried. -/
theorem not_triesAlternative {language : Language} (hkeys : language.HasKeyTexts)
    {alternatives : List Shape} {always : Shape} {n later : ℕ} {start : Cursor}
    (halways : alternatives[n]? = some always)
    (hnull : always.isNullable language.nullable = true) (hlater : n < later) :
    ¬ language.TriesAlternative alternatives later start := by
  rintro ⟨_, htries⟩
  have hmem : always ∈ alternatives.take later := by
    obtain ⟨hlt, hget⟩ := List.getElem?_eq_some_iff.mp halways
    exact List.mem_take_iff_getElem.mpr ⟨n, by omega, hget⟩
  exact (htries always hmem).ne_failed hkeys rfl hnull rfl

end Language

namespace Diagnosis

/-- The message about alternatives behind one that always succeeds. -/
def shadowMessage (language : Language) (owner : String) (always : Shape) : Diagnostic :=
  report .warning (s!"alternatives after {always.display language.term?} in `{owner}` "
    ++ "are unreachable; it always succeeds")

variable {language : Language} {nullable : TermSet} {owner : String} {part always : Shape}
  {alternatives : List Shape} {message : Diagnostic}

/-- Of a choice there is a message if its first nullable alternative is not its last one. -/
theorem partMessage?_choice_iff :
    partMessage? language nullable owner (.choice alternatives) = some message ↔
      ∃ before always next after, alternatives = before ++ always :: next :: after ∧
        (∀ s ∈ before, s.isNullable nullable = false) ∧ always.isNullable nullable = true ∧
          message = shadowMessage language owner always := by
  constructor
  · intro h
    have hsplit := List.takeWhile_append_dropWhile (p := fun s => !s.isNullable nullable)
      (l := alternatives)
    have hbefore : ∀ s ∈ alternatives.takeWhile (!·.isNullable nullable),
        s.isNullable nullable = false := by
      intro s hs
      simpa using List.mem_takeWhile_imp hs
    unfold partMessage? at h
    simp only at h
    split at h
    · next always next after hdrop =>
      have halways : always.isNullable nullable = true := by
        have hhead := List.head?_dropWhile_not (!·.isNullable nullable) alternatives
        rw [hdrop] at hhead
        simpa using hhead
      rw [hdrop] at hsplit
      exact ⟨_, always, next, after, hsplit.symm, hbefore, halways, (Option.some.inj h).symm⟩
    · cases h
  · rintro ⟨before, always, next, after, rfl, hbefore, halways, rfl⟩
    have hdrop : (before ++ always :: next :: after).dropWhile (!·.isNullable nullable) =
        always :: next :: after := by
      rw [List.dropWhile_append_of_pos (by simpa using hbefore), List.dropWhile_cons_of_neg]
      simpa using halways
    unfold partMessage?
    simp only [hdrop]
    rfl

/-! ## Other messages -/

theorem termMessage?_severity {term : Term} (h : termMessage? term = some message) :
    message.severity ≠ .warning := by
  unfold termMessage? at h
  split at h
  · split at h
    · obtain rfl := Option.some.inj h
      exact nofun
    · split at h
      · obtain rfl := Option.some.inj h
        exact nofun
      · cases h
  · obtain rfl := Option.some.inj h
    exact nofun
  · cases h

theorem commentMessages_severity {comment : Comment} (h : message ∈ commentMessages comment) :
    message.severity ≠ .warning := by
  unfold commentMessages at h
  rcases List.mem_append.mp h with h | h
  · split at h
    · obtain rfl := List.mem_singleton.mp h
      exact nofun
    · cases h
  · split at h
    · obtain rfl := List.mem_singleton.mp h
      exact nofun
    · cases h

/-- Only of choices there are warnings. -/
theorem partMessage?_severity (h : partMessage? language nullable owner part = some message)
    (hchoice : ∀ alternatives, part ≠ .choice alternatives) : message.severity ≠ .warning := by
  unfold partMessage? at h
  simp only at h
  split at h
  · split at h
    · obtain rfl := Option.some.inj h
      exact nofun
    · cases h
  · split at h
    · obtain rfl := Option.some.inj h
      exact nofun
    · cases h
  · split at h
    · obtain rfl := Option.some.inj h
      exact nofun
    · cases h
  · exact absurd rfl (hchoice _)
  · cases h

theorem reachMessage?_ne_shadowMessage {reached : TermSet} {n : ℕ}
    (h : reachMessage? language reached n = some message) :
    message ≠ shadowMessage language owner always := by
  rintro rfl
  unfold reachMessage? at h
  split at h
  · split at h
    · have htext := congrArg (fun message => message.message.toList.head?) (Option.some.inj h)
      simp only [shadowMessage, report, String.toList_append] at htext
      cases htext
    · cases h
  · cases h

end Diagnosis

namespace Language

open Diagnosis

variable {language : Language} {message : Diagnostic} {owner : String} {always : Shape}

/-- The message is about a choice of a rule. -/
theorem exists_choice_of_shadowMessage
    (h : shadowMessage language owner always ∈ language.diagnose) :
    ∃ term ∈ language.terms, ∃ shape before first next after, term.shape? = some shape ∧
      .choice (before ++ first :: next :: after) ∈ shape.parts ∧
        first.isNullable language.nullable = true ∧
          shadowMessage language owner always = shadowMessage language term.name first := by
  rcases mem_diagnose_iff.mp h with ⟨term, _, hmessage⟩ | ⟨comment, _, hmessage⟩ |
    ⟨term, hterm, hmessage⟩ | ⟨cycle, _, hmessage⟩ | ⟨n, _, hmessage⟩
  · exact absurd rfl (termMessage?_severity hmessage)
  · exact absurd rfl (commentMessages_severity hmessage)
  · unfold ruleMessages at hmessage
    split at hmessage
    · next shape hshape =>
      obtain ⟨part, hpart, hmessage⟩ := List.mem_filterMap.mp hmessage
      by_cases hchoice : ∃ alternatives, part = .choice alternatives
      · obtain ⟨alternatives, rfl⟩ := hchoice
        obtain ⟨before, first, next, after, rfl, _, hfirst, hsame⟩ :=
          partMessage?_choice_iff.mp hmessage
        exact ⟨term, hterm, shape, before, first, next, after, hshape, hpart, hfirst, hsame⟩
      · exact absurd rfl (partMessage?_severity hmessage fun _ hsame => hchoice ⟨_, hsame⟩)
    · cases hmessage
  · have hseverity := congrArg Diagnostic.severity hmessage
    cases hseverity
  · exact absurd rfl (reachMessage?_ne_shadowMessage hmessage)

/-- Of a choice with a nullable alternative before its last one there is a message. -/
theorem exists_shadowMessage_of_isNullable {term : Term} {shape : Shape} {alternatives : List Shape}
    {n : ℕ} (hterm : term ∈ language.terms) (hshape : term.shape? = some shape)
    (hchoice : .choice alternatives ∈ shape.parts) (halways : alternatives[n]? = some always)
    (hlast : n + 1 < alternatives.length) (hnull : always.isNullable language.nullable = true) :
    ∃ first ∈ alternatives.take (n + 1), first.isNullable language.nullable = true ∧
      shadowMessage language term.name first ∈ language.diagnose := by
  have hmem : always ∈ alternatives.take (n + 1) := by
    obtain ⟨hlt, hget⟩ := List.getElem?_eq_some_iff.mp halways
    exact List.mem_take_iff_getElem.mpr ⟨n, by omega, hget⟩
  obtain ⟨first, hfound⟩ : ∃ first,
      (alternatives.take (n + 1)).find? (·.isNullable language.nullable) = some first := by
    rw [← Option.isSome_iff_exists, List.find?_isSome]
    exact ⟨always, hmem, hnull⟩
  obtain ⟨hfirst, before, between, htake, hbefore⟩ := List.find?_eq_some_iff_append.mp hfound
  obtain ⟨next, after, hrest⟩ : ∃ next after,
      between ++ alternatives.drop (n + 1) = next :: after := by
    rw [← List.ne_nil_iff_exists_cons]
    refine List.append_ne_nil_of_right_ne_nil _ ?_
    rw [Ne, List.drop_eq_nil_iff]
    omega
  have hsplit := (List.take_append_drop (n + 1) alternatives).symm
  rw [htake, List.append_assoc, List.cons_append, hrest] at hsplit
  refine ⟨first, List.mem_of_find?_eq_some hfound, hfirst, ?_⟩
  refine mem_diagnose_iff.mpr (.inr (.inr (.inl ⟨term, hterm, ?_⟩)))
  rw [ruleMessages, hshape]
  refine List.mem_filterMap.mpr ⟨_, hchoice, partMessage?_choice_iff.mpr ?_⟩
  refine ⟨before, first, next, after, hsplit, ?_, hfirst, rfl⟩
  intro s hs
  simpa using hbefore s hs

/-! ## Nullability -/

/-- **What it means to be nullable.**  A choice without alternatives is left out where a match is to
be called nullable, as it matches everywhere but is not called so. -/
structure SoundNullability (language : Language) : Prop where
  /-- A shape that matches the empty text is nullable. -/
  isNullable_of_matchesAt_nil : ∀ shape : Shape, .choice [] ∉ shape.parts →
    language.MatchesAt shape (Cursor.start []) → shape.isNullable language.nullable = true
  /-- A nullable shape matches at each place, unless it gets stuck there. -/
  matchesAt_of_isNullable : ∀ shape : Shape, shape.isNullable language.nullable = true →
    ∀ start, ¬ language.Stuck ⊤ (.shape shape) start → language.MatchesAt shape start
  /-- What is not nullable consumes input. -/
  consumes : ∀ shape : Shape, .choice [] ∉ shape.parts →
    shape.isNullable language.nullable = false → ∀ start trees stop,
      language.Evaluates ⊤ (.shape shape) start (.matched trees stop) → start < stop
  /-- A warning is about a choice whose later alternatives are never tried. -/
  unreachable : ∀ owner always, shadowMessage language owner always ∈ language.diagnose →
    ∃ term ∈ language.terms, ∃ shape before first next after, term.shape? = some shape ∧
      .choice (before ++ first :: next :: after) ∈ shape.parts ∧
        shadowMessage language owner always = shadowMessage language term.name first ∧
          ∀ n > before.length, ∀ start,
            ¬ language.TriesAlternative (before ++ first :: next :: after) n start
  /-- There is a warning about each choice in which an alternative before the last one never fails,
  if this alternative does not get stuck at the empty text. -/
  reported : ∀ term ∈ language.terms, ∀ shape, term.shape? = some shape →
    .choice [] ∉ shape.parts → ∀ alternatives, .choice alternatives ∈ shape.parts →
      ∀ n always, alternatives[n]? = some always → n + 1 < alternatives.length →
        ¬ language.Stuck ⊤ (.shape always) (Cursor.start []) →
        (∀ start, ¬ language.Evaluates ⊤ (.shape always) start .failed) →
          ∃ first ∈ alternatives.take (n + 1), first.isNullable language.nullable = true ∧
            shadowMessage language term.name first ∈ language.diagnose

/-- A shape that never gets stuck is nullable if and only if it matches everywhere, and if and only
if it matches the empty text. -/
theorem SoundNullability.iff_matchesAt {shape : Shape} (h : language.SoundNullability)
    (hshape : .choice [] ∉ shape.parts) (hstuck : language.NeverStuck shape) :
    (shape.isNullable language.nullable = true ↔ ∀ start, language.MatchesAt shape start) ∧
      (shape.isNullable language.nullable = true ↔ language.MatchesAt shape (Cursor.start [])) := by
  have hnullable := h.isNullable_of_matchesAt_nil shape hshape
  have hmatches : shape.isNullable language.nullable = true →
      ∀ start, language.MatchesAt shape start := fun hnull start =>
    h.matchesAt_of_isNullable shape hnull start (hstuck start)
  exact ⟨⟨hmatches, fun hall => hnullable (hall _)⟩, ⟨fun hnull => hmatches hnull _, hnullable⟩⟩

/-- **Nullable shapes always match.**  If key terms have texts, choices have alternatives and no
rule is entered again where it is open, being nullable means to match everywhere: what matches the
empty text is nullable, and what is nullable matches wherever it does not get stuck. -/
theorem NeverReenters.soundNullability (hfree : language.NeverReenters)
    (hkeys : language.HasKeyTexts) (halternatives : language.HasAlternatives) :
    language.SoundNullability where
  isNullable_of_matchesAt_nil shape hshape hmatches :=
    isNullable_of_matchesAt_nil halternatives hshape hmatches
  matchesAt_of_isNullable shape hnull start hstuck :=
    matchesAt_of_isNullable hkeys hfree hnull hstuck
  consumes shape hshape hnull start trees stop h := by
    refine h.le.lt_of_ne ?_
    rintro rfl
    rw [isNullable_of_matched halternatives hshape h] at hnull
    cases hnull
  unreachable owner always h := by
    obtain ⟨term, hterm, shape, before, first, next, after, hshape, hchoice, hfirst, hsame⟩ :=
      exists_choice_of_shadowMessage h
    refine ⟨term, hterm, shape, before, first, next, after, hshape, hchoice, hsame, ?_⟩
    have hget : (before ++ first :: next :: after)[before.length]? = some first := by
      rw [List.getElem?_append_right le_rfl, Nat.sub_self]
      rfl
    exact fun n hn start => not_triesAlternative hkeys hget hfirst hn
  reported term hterm shape hshape hparts alternatives hchoice n always halways hlast hstuck
      hnever := by
    refine exists_shadowMessage_of_isNullable hterm hshape hchoice halways hlast ?_
    obtain ⟨verdict, h⟩ := hfree.hasVerdict hstuck
    cases verdict with
    | failed => exact absurd h (hnever _)
    | matched trees stop =>
      refine isNullable_of_matchesAt_nil halternatives (fun hempty => hparts ?_) ⟨trees, stop, h⟩
      have hmem := Shape.mem_parts_of_choice (List.mem_of_getElem? halways)
      exact Shape.parts_trans hchoice (Shape.parts_trans hmem hempty)

/-! ## Rules that do not refer to themselves -/

/-- A language of one rule that does not refer to itself never enters it again. -/
theorem neverReenters_ofRule {shape : Shape} {symbols : List (TermIndex × String)}
    (hshape : .choice [] ∉ shape.parts) (hrule : .term ruleIndex ∉ shape.parts) :
    (ofRule shape symbols).NeverReenters := by
  intro index opened place hattempt
  have hcycle := hattempt.leads_self (hasAlternatives_ofRule hshape)
  obtain ⟨j, ⟨⟨term, found, hdef, hbegins⟩, _, _, hdef'⟩, _⟩ :=
    Relation.TransGen.head'_iff.mp hcycle
  obtain ⟨_, rfl⟩ := defines_ofRule hdef
  obtain ⟨rfl, _⟩ := defines_ofRule hdef'
  exact hrule hbegins.mem_parts

/-- Where nothing critical is found, the parts of rules never get stuck. -/
theorem IsUncritical.neverStuck {language : Language} {shape : Shape} (h : language.IsUncritical)
    (halternatives : language.HasAlternatives) (hpart : language.HasPart shape) :
    language.NeverStuck shape := by
  rintro start ⟨opened, item, delimiter, place, trees, hattempt, hpair⟩
  have hcovers : language.Covers (.shape shape) := hpart
  exact lt_irrefl place
    (h.lt_of_pair halternatives.not_overlooksRepetition (hattempt.covers hcovers) hpair)

/-- The repetition of the first symbol, as often as there is one. -/
def firstSymbols : Shape :=
  .repeated (.term firstSymbol) ⟨true, false⟩

/-- The language of a choice whose second alternative is never tried: `A ::= "+"* | "-"`. -/
def shadowing : Language :=
  .ofRule (.choice [firstSymbols, .term secondSymbol]) [(firstSymbol, "+"), (secondSymbol, "-")]

theorem hasAlternatives_shadowing : shadowing.HasAlternatives :=
  hasAlternatives_ofRule (by decide)

/-- The first alternative matches everywhere, the second one consumes input, and there is a warning
about the choice. -/
theorem soundNullability_shadowing :
    (∀ start, shadowing.MatchesAt firstSymbols start) ∧
      (∀ start trees stop, shadowing.Evaluates ⊤ (.shape (.term secondSymbol)) start
        (.matched trees stop) → start < stop) ∧
      ∃ first ∈ [firstSymbols], first.isNullable shadowing.nullable = true ∧
        Diagnosis.shadowMessage shadowing "A" first ∈ shadowing.diagnose := by
  have hfree : shadowing.NeverReenters := neverReenters_ofRule (by decide) (by decide)
  have hsound : shadowing.SoundNullability :=
    hfree.soundNullability (by decide) hasAlternatives_shadowing
  have hdef : shadowing.Defines ruleIndex
      ⟨"A", .rule (some (.choice [firstSymbols, .term secondSymbol])), .none, none⟩
      (.choice [firstSymbols, .term secondSymbol]) := ⟨rfl, rfl⟩
  have hstuck : shadowing.NeverStuck firstSymbols :=
    IsUncritical.neverStuck (by decide +kernel) hasAlternatives_shadowing
      (Or.inr ⟨_, _, _, hdef, by decide⟩)
  have hmatches : ∀ start, shadowing.MatchesAt firstSymbols start :=
    (hsound.iff_matchesAt (by decide) hstuck).1.mp (by decide)
  refine ⟨hmatches, hsound.consumes _ (by decide) (by decide +kernel), ?_⟩
  have hnever : ∀ start, ¬ shadowing.Evaluates ⊤ (.shape firstSymbols) start .failed := by
    intro start hfails
    obtain ⟨trees, stop, h⟩ := hmatches start
    cases h.unique hfails
  exact hsound.reported _ (Array.mem_of_getElem? hdef.1) _ rfl (by decide)
    [firstSymbols, .term secondSymbol] (by decide) 0 firstSymbols rfl (by decide) (hstuck _) hnever

/-! ## A repetition of nothing -/

/-- A repetition of nothing. -/
def idling : Shape :=
  .repeated .empty ⟨true, false⟩

/-- The language in which a repetition of nothing is an alternative: `A ::= ε* | "x"`. -/
def idle : Language :=
  .ofRule (.choice [idling, .term firstSymbol]) [(firstSymbol, "x")]

/-- Pairs of nothing never come to an end. -/
theorem not_evaluates_pairs_empty {language : Language} {room : ℕ∞} {start : Cursor}
    {verdict : Verdict} : ¬ language.Evaluates room (.pairs .empty .empty) start verdict := by
  intro h
  generalize htask : Task.pairs .empty .empty = task at h
  induction h with
  | pairsEnd hfails =>
    cases htask
    cases hfails.unique (.allCons .empty (.allCons .empty .allNil))
  | pairsNext _ _ _ ih => exact ih htask
  | _ => cases htask

/-- **Nullable without a match.**  A repetition of nothing is called nullable, but it matches
nowhere: not even the empty text. -/
theorem isNullable_idling : idle.HasKeyTexts ∧ idle.HasAlternatives ∧ idle.NeverReenters ∧
    .choice [] ∉ idling.parts ∧ idling.isNullable idle.nullable = true ∧
      ∀ start, ¬ idle.MatchesAt idling start := by
  refine ⟨by decide, hasAlternatives_ofRule (by decide),
    neverReenters_ofRule (by decide) (by decide), by decide, by decide, ?_⟩
  rintro start ⟨trees, stop, h⟩
  generalize hverdict : Verdict.matched trees stop = verdict at h
  cases h with
  | repeated h =>
    cases h with
    | itemsFail hitem => cases hitem
    | items _ hpairs => exact not_evaluates_pairs_empty hpairs

end Language

end TypedGrammar
