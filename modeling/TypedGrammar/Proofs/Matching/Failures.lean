import TypedGrammar.Proofs.Matching.Closure
import TypedGrammar.Proofs.Matching.Place

/-!
# Where failures point

A failure points to a span of characters.  Spans come from many places: from the character that
was not expected, from the end of the text, from what a check refuses, from attempts that were given
up and are remembered.  However matchers are put together, no span begins before the place where
the matcher starts, and none reaches beyond the end of the text.
-/

namespace TypedGrammar

/-- The failure points to characters that remain at a place. -/
structure Failure.PointsBehind (failure : Failure) (start : Cursor) : Prop where
  start_le : start.index ≤ failure.start
  le_stop : failure.start ≤ failure.stop
  stop_le : failure.stop ≤ start.index + start.remaining

namespace Cursor

/-- The end of the text is the same, seen from everywhere. -/
theorem end_eq_of_le {start stop : Cursor} (h : start ≤ stop) :
    start.index + start.remaining = stop.index + stop.remaining := by
  obtain ⟨taken, hrest, hindex⟩ := h
  rw [start.remaining_eq, stop.remaining_eq, hrest, List.length_append, hindex]
  omega

/-- A span ends behind its beginning and within the text. -/
theorem spanEnd_bounds {start stop : Cursor} (h : start ≤ stop) :
    start.index ≤ start.spanEnd stop ∧ start.spanEnd stop ≤ start.index + start.remaining := by
  have hend := end_eq_of_le h
  have hindex := index_le_of_le h
  unfold spanEnd
  by_cases hlt : start.index < stop.index
  · rw [if_pos hlt]
    omega
  · rw [if_neg hlt]
    omega

end Cursor

namespace Failure

variable {e f : Failure} {start middle stop : Cursor}

/-- What points behind a place points behind every earlier one. -/
theorem PointsBehind.mono (h : e.PointsBehind middle) (hle : start ≤ middle) :
    e.PointsBehind start := by
  have hindex := Cursor.index_le_of_le hle
  have hend := Cursor.end_eq_of_le hle
  obtain ⟨hstart, hspan, hstop⟩ := h
  exact ⟨by omega, hspan, by omega⟩

/-- Something unexpected is reported where it stands. -/
theorem pointsBehind_unexpectedAt (start : Cursor) (expected : List (Option Char)) :
    (unexpectedAt start expected).PointsBehind start := by
  refine ⟨Nat.le_refl _, Nat.le_add_right _ _, ?_⟩
  show start.index + min 1 start.remaining ≤ start.index + start.remaining
  omega

/-- A refusal points behind the start of what is refused. -/
theorem pointsBehind_refused (h : start ≤ stop) (message : String) :
    (refused start stop message).PointsBehind start := by
  obtain ⟨hspan, hstop⟩ := Cursor.spanEnd_bounds h
  exact ⟨Nat.le_refl _, hspan, hstop⟩

/-- Of two failures, the span of one is kept. -/
theorem PointsBehind.further (he : e.PointsBehind start) (hf : f.PointsBehind start) :
    (e.further f).PointsBehind start := by
  unfold Failure.further
  by_cases hlt : e.position < f.position
  · rw [if_pos hlt]
    exact hf
  · rw [if_neg hlt]
    by_cases hgt : f.position < e.position
    · rw [if_pos hgt]
      exact he
    · rw [if_neg hgt]
      exact ⟨he.start_le, he.le_stop, he.stop_le⟩

/-- The further one of two failures points behind the start, if both do. -/
theorem PointsBehind.furtherThan {remembered : Option Failure} (he : e.PointsBehind start)
    (h : ∀ f ∈ remembered, f.PointsBehind start) :
    (e.furtherThan remembered).PointsBehind start := by
  cases remembered with
  | none => exact he
  | some f => exact he.further (h f rfl)

/-- What is remembered of two failures points behind the start, if both do. -/
theorem pointsBehind_remember {earlier later : Option Failure}
    (hearlier : ∀ f ∈ earlier, f.PointsBehind start)
    (hlater : ∀ f ∈ later, f.PointsBehind start) :
    ∀ f ∈ remember earlier later, f.PointsBehind start := by
  cases later with
  | none => exact hearlier
  | some e =>
    intro f hf
    obtain rfl := Option.some.inj hf
    exact (hlater e rfl).furtherThan hearlier

end Failure

/-! ## Confined matchers -/

/-- The outcome of a matcher that started at a place: a match does not end before it, and every
failure points behind it, the remembered ones included. -/
def Outcome.PointsBehind {α : Type} (start : Cursor) : Outcome α → Prop
  | .matched _ stop remembered => start ≤ stop ∧ ∀ f ∈ remembered, f.PointsBehind start
  | .failed f => f.PointsBehind start
  | .stalled => True

namespace Outcome

variable {α : Type} {outcome : Outcome α} {start middle : Cursor}

/-- An outcome behind a place is behind every earlier one. -/
theorem PointsBehind.mono (h : outcome.PointsBehind middle) (hle : start ≤ middle) :
    outcome.PointsBehind start := by
  cases outcome with
  | matched a stop remembered => exact ⟨hle.trans h.1, fun f hf => (h.2 f hf).mono hle⟩
  | failed f => exact Failure.PointsBehind.mono h hle
  | stalled => trivial

end Outcome

namespace Matcher

variable {α β : Type} {p q : Matcher α}

/-- The matcher is confined to what remains where it starts. -/
def Confined (p : Matcher α) : Prop :=
  ∀ start, (p start).PointsBehind start

/-! ### Sequence and choice -/

/-- Giving a value is confined, since it reports nothing. -/
theorem confined_succeed (value : α) : (succeed value).Confined :=
  fun _ => ⟨le_refl _, nofun⟩

theorem confined_fail (message : String) : (fail message : Matcher α).Confined :=
  fun _ => Failure.pointsBehind_refused (le_refl _) message

/-- Confined matchers, one after the other, are confined. -/
theorem confined_andThen {f : α → Matcher β} (hp : p.Confined) (hf : ∀ a, (f a).Confined) :
    (andThen p f).Confined := by
  intro start
  have hfirst := hp start
  unfold andThen
  cases hstart : p start with
  | stalled => trivial
  | failed e =>
    rw [hstart] at hfirst
    exact hfirst
  | matched a middle earlier =>
    rw [hstart] at hfirst
    obtain ⟨hle, hearlier⟩ := hfirst
    have hrest := (hf a middle).mono hle
    cases hmiddle : f a middle with
    | stalled => simp only [hmiddle]; trivial
    | failed e =>
      rw [hmiddle] at hrest
      simp only [hmiddle]
      exact Failure.PointsBehind.furtherThan hrest hearlier
    | matched b stop later =>
      rw [hmiddle] at hrest
      simp only [hmiddle]
      exact ⟨hrest.1, Failure.pointsBehind_remember hearlier hrest.2⟩

/-- A choice between confined matchers is confined. -/
theorem confined_orElse (hp : p.Confined) (hq : q.Confined) : (orElse p q).Confined := by
  intro start
  have hfirst := hp start
  have hsecond := hq start
  unfold orElse
  cases hstart : p start with
  | stalled => trivial
  | matched a stop remembered =>
    rw [hstart] at hfirst
    exact hfirst
  | failed e =>
    rw [hstart] at hfirst
    cases hother : q start with
    | stalled => trivial
    | matched a stop remembered =>
      rw [hother] at hsecond
      simp only
      exact hsecond
    | failed f =>
      rw [hother] at hsecond
      simp only
      exact Failure.PointsBehind.further hfirst hsecond

/-- A confined match that may be missing is confined. -/
theorem confined_optional (hp : p.Confined) : (Matcher.optional p).Confined := by
  intro start
  have hfirst := hp start
  unfold Matcher.optional
  cases hstart : p start with
  | stalled => trivial
  | matched a stop remembered =>
    rw [hstart] at hfirst
    exact hfirst
  | failed e =>
    rw [hstart] at hfirst
    refine ⟨le_refl _, fun f hf => ?_⟩
    obtain rfl := Option.some.inj hf
    exact hfirst

/-! ### Repetition -/

/-- A repetition of a confined matcher is confined. -/
theorem confined_many (hp : p.Confined) : Confined (many p) := by
  intro start
  induction hn : start.remaining using Nat.strongRecOn generalizing start with
  | ind n ih =>
    have hfirst := hp start
    rw [many]
    cases hstart : p start with
    | stalled => trivial
    | failed e =>
      rw [hstart] at hfirst
      refine ⟨le_refl _, fun f hf => ?_⟩
      obtain rfl := Option.some.inj hf
      exact hfirst
    | matched a middle earlier =>
      rw [hstart] at hfirst
      obtain ⟨hle, hearlier⟩ := hfirst
      by_cases hlt : middle.remaining < start.remaining
      · have hrest := (ih _ (hn ▸ hlt) middle rfl).mono hle
        simp only [hlt, if_true]
        cases hmiddle : many p middle with
        | stalled => trivial
        | failed e =>
          rw [hmiddle] at hrest
          exact Failure.PointsBehind.furtherThan hrest hearlier
        | matched as stop later =>
          rw [hmiddle] at hrest
          exact ⟨hrest.1, Failure.pointsBehind_remember hearlier hrest.2⟩
      · simp only [hlt, if_false]
        trivial

/-- A search for a confined matcher is confined. -/
theorem confined_skipPast (hp : p.Confined) : Confined (skipPast p) := by
  intro start
  induction hn : start.remaining using Nat.strongRecOn generalizing start with
  | ind n ih =>
    have hfirst := hp start
    rw [skipPast]
    cases hstart : p start with
    | stalled => trivial
    | matched a stop remembered =>
      rw [hstart] at hfirst
      exact hfirst
    | failed e =>
      rw [hstart] at hfirst
      simp only
      split
      · exact hfirst
      · next c next hnext =>
        have hle : start ≤ next := (Cursor.spans_of_next? hnext).le
        have hlt := Cursor.remaining_of_next? hnext
        have hrest := (ih _ (hn ▸ hlt) next rfl).mono hle
        cases hskipped : skipPast p next with
        | stalled => trivial
        | failed f =>
          rw [hskipped] at hrest
          exact hrest
        | matched u stop later =>
          rw [hskipped] at hrest
          refine ⟨hrest.1, Failure.pointsBehind_remember ?_ hrest.2⟩
          intro f hf
          obtain rfl := Option.some.inj hf
          exact hfirst

/-! ### Characters -/

/-- Testing one character is confined. -/
theorem confined_satisfying (f : Char → Bool) (expected : List (Option Char)) :
    (satisfying f expected).Confined := by
  intro start
  unfold satisfying
  cases hnext : start.next? with
  | none => exact Failure.pointsBehind_unexpectedAt start expected
  | some found =>
    obtain ⟨c, stop⟩ := found
    by_cases hc : f c
    · simp only [hc, if_true]
      exact ⟨(Cursor.spans_of_next? hnext).le, nofun⟩
    · simp only [hc]
      exact Failure.pointsBehind_unexpectedAt start expected

/-- Looking for the end of the text is confined. -/
theorem confined_atEnd : atEnd.Confined := by
  intro start
  unfold atEnd
  cases start.rest with
  | nil => exact ⟨le_refl _, nofun⟩
  | cons c cs => exact Failure.pointsBehind_unexpectedAt start [none]

/-! ### What was matched -/

/-- The text of a match changes nothing about its failures. -/
theorem confined_withText (hp : p.Confined) : (withText p).Confined := by
  intro start
  have hfirst := hp start
  unfold withText
  cases hstart : p start with
  | stalled => trivial
  | matched a stop remembered =>
    rw [hstart] at hfirst
    exact hfirst
  | failed e =>
    rw [hstart] at hfirst
    exact hfirst

/-- What a check refuses was matched, so the refusal points to it. -/
theorem confined_checked {check : α → Except String β} (hp : p.Confined) :
    (checked p check).Confined := by
  intro start
  have hfirst := hp start
  unfold checked
  cases hstart : p start with
  | stalled => trivial
  | failed e =>
    rw [hstart] at hfirst
    exact hfirst
  | matched a stop remembered =>
    rw [hstart] at hfirst
    cases hcheck : check a with
    | ok b =>
      simp only [hcheck]
      exact hfirst
    | error message =>
      simp only [hcheck]
      exact Failure.pointsBehind_refused hfirst.1 message

/-- Matchers stay confined however they are put together. -/
theorem closed_confined : Closed @Confined where
  succeed := confined_succeed
  fail := confined_fail
  andThen := confined_andThen
  orElse := confined_orElse
  optional := confined_optional
  many := confined_many
  skipPast := confined_skipPast
  satisfying := confined_satisfying
  atEnd := confined_atEnd
  withText := confined_withText
  checked := confined_checked

end Matcher

namespace Language

/-- **Failures of documents.**  The failure of a text points to characters of the text. -/
theorem failure_bounds {language : Language} {text : List Char} {failure : Failure}
    (h : language.matchDocument (Cursor.start text) = .failed failure) :
    failure.start ≤ failure.stop ∧ failure.stop ≤ text.length := by
  have hconfined := Matcher.closed_confined.matchDocument language (Cursor.start text)
  rw [h] at hconfined
  have hstop := hconfined.stop_le
  refine ⟨hconfined.le_stop, ?_⟩
  rwa [show (Cursor.start text).index = 0 from rfl, Nat.zero_add] at hstop

end Language

end TypedGrammar
