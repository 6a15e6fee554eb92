import TypedGrammar.Proofs.Matching.Closure
import TypedGrammar.Proofs.Matching.Laws

/-!
# Matching further back in a text

What a matcher does depends on the characters that remain, not on how many stand before them.  If
the same characters remain further back in a text, the same is matched there, and all places, those
of failures included, lie further back by as much.
-/

namespace TypedGrammar

namespace Cursor

/-- The place where the same characters remain and `n` more stand before them. -/
def later (cursor : Cursor) (n : ℕ) : Cursor :=
  { cursor with index := cursor.index + n }

variable {start stop : Cursor} {cs : List Char} {n : ℕ}

@[simp] theorem later_index : (start.later n).index = start.index + n :=
  rfl

@[simp] theorem later_rest : (start.later n).rest = start.rest :=
  rfl

@[simp] theorem later_remaining : (start.later n).remaining = start.remaining :=
  rfl

/-- The same character comes next further back. -/
theorem later_next? (start : Cursor) (n : ℕ) :
    (start.later n).next? = start.next?.map fun found => (found.1, found.2.later n) := by
  obtain ⟨index, rest, remaining, h⟩ := start
  cases rest with
  | nil => rfl
  | cons c rest =>
    simp only [later, next?, Option.map_some, Option.some.injEq, Prod.mk.injEq, true_and]
    apply eq_of_index_rest
    · exact Nat.add_right_comm index n 1
    · rfl

/-- The same characters are spanned further back. -/
theorem Spans.later (h : start.Spans stop cs) : (start.later n).Spans (stop.later n) cs := by
  refine ⟨h.1, ?_⟩
  rw [later_index, later_index, h.2]
  exact Nat.add_right_comm _ _ _

/-- The end of a span lies further back by as much. -/
@[simp] theorem later_spanEnd :
    (start.later n).spanEnd (stop.later n) = start.spanEnd stop + n := by
  unfold spanEnd
  by_cases h : start.index < stop.index
  · have hlater : (start.later n).index < (stop.later n).index := Nat.add_lt_add_right h n
    rw [if_pos h, if_pos hlater, later_index]
  · have hlater : ¬ (start.later n).index < (stop.later n).index :=
      fun hlt => h (Nat.lt_of_add_lt_add_right hlt)
    rw [if_neg h, if_neg hlater, later_index, later_remaining]
    exact Nat.add_right_comm _ _ _

/-- The text of a span is the same further back. -/
@[simp] theorem later_spanText : (start.later n).spanText (stop.later n) = start.spanText stop := by
  rw [spanText, spanText, later_spanEnd, later_rest, later_index, Nat.add_sub_add_right]

@[simp] theorem later_between : (start.later n).between (stop.later n) = start.between stop := by
  rw [between, between, later_rest, later_index, later_index, Nat.add_sub_add_right]

end Cursor

namespace Failure

variable {e f : Failure} {n : ℕ}

/-- The failure with `n` more characters before it. -/
def later (e : Failure) (n : ℕ) : Failure :=
  { e with position := e.position + n, start := e.start + n, stop := e.stop + n }

/-- What is unexpected further back is reported further back. -/
theorem later_unexpectedAt (start : Cursor) (expected : List (Option Char)) (n : ℕ) :
    unexpectedAt (start.later n) expected = (unexpectedAt start expected).later n := by
  simp only [unexpectedAt, later, Cursor.later_index, Cursor.later_remaining, Cursor.later_rest,
    mk.injEq, true_and, and_true]
  exact Nat.add_right_comm _ _ _

/-- What is refused further back is reported further back. -/
theorem later_refused (start stop : Cursor) (message : String) (n : ℕ) :
    refused (start.later n) (stop.later n) message = (refused start stop message).later n := by
  simp only [refused, later, Cursor.later_index, Cursor.later_spanEnd]

/-- Of two failures the further one is the same further back. -/
theorem later_further (e f : Failure) (n : ℕ) :
    (e.later n).further (f.later n) = (e.further f).later n := by
  unfold further
  simp only [show ∀ g : Failure, (g.later n).position = g.position + n from fun _ => rfl,
    Nat.add_lt_add_iff_right]
  split
  · rfl
  · split <;> rfl

/-- The same holds if a failure is remembered. -/
theorem later_furtherThan (e : Failure) (remembered : Option Failure) (n : ℕ) :
    (e.later n).furtherThan (remembered.map (later · n)) = (e.furtherThan remembered).later n := by
  cases remembered with
  | none => rfl
  | some f => exact later_further e f n

/-- Of two failures that are remembered, the same one is remembered further back. -/
theorem later_remember (earlier later' : Option Failure) (n : ℕ) :
    remember (earlier.map (later · n)) (later'.map (later · n)) =
      (remember earlier later').map (later · n) := by
  cases later' with
  | none => rfl
  | some e => exact congrArg some (later_furtherThan e earlier n)

end Failure

/-- The outcome with `n` more characters before it. -/
def Outcome.later {α : Type} (n : ℕ) : Outcome α → Outcome α
  | .matched a stop remembered => .matched a (stop.later n) (remembered.map (·.later n))
  | .failed e => .failed (e.later n)
  | .stalled => .stalled

namespace Matcher

variable {α β : Type} {p q : Matcher α}

/-- The matcher does the same wherever the same characters remain. -/
def Uniform (p : Matcher α) : Prop :=
  ∀ start n, p (start.later n) = (p start).later n

/-- One character is tested in the same way everywhere. -/
theorem uniform_satisfying (f : Char → Bool) (expected : List (Option Char)) :
    (satisfying f expected).Uniform := by
  intro start n
  unfold satisfying
  rw [Cursor.later_next?]
  cases hnext : start.next? with
  | none => exact congrArg Outcome.failed (Failure.later_unexpectedAt start expected n)
  | some found =>
    obtain ⟨c, stop⟩ := found
    by_cases hc : f c
    · simp only [Option.map_some, hc, if_true]
      rfl
    · simp only [Option.map_some, hc]
      exact congrArg Outcome.failed (Failure.later_unexpectedAt start expected n)

/-- Uniform matchers, one after the other, are uniform. -/
theorem uniform_andThen {f : α → Matcher β} (hp : p.Uniform) (hf : ∀ a, (f a).Uniform) :
    (andThen p f).Uniform := by
  intro start n
  unfold andThen
  rw [hp]
  cases p start with
  | stalled => rfl
  | failed e => rfl
  | matched a middle earlier =>
    simp only [Outcome.later, hf a middle]
    cases f a middle with
    | stalled => rfl
    | failed e => exact congrArg Outcome.failed (Failure.later_furtherThan e earlier n)
    | matched b stop later =>
      exact congrArg (Outcome.matched b _) (Failure.later_remember earlier later n)

/-- A choice between uniform matchers is uniform. -/
theorem uniform_orElse (hp : p.Uniform) (hq : q.Uniform) : (orElse p q).Uniform := by
  intro start n
  unfold orElse
  rw [hp, hq]
  cases p start with
  | stalled => rfl
  | matched a stop remembered => rfl
  | failed e =>
    cases q start with
    | stalled => rfl
    | matched a stop remembered => rfl
    | failed f => exact congrArg Outcome.failed (Failure.later_further e f n)

/-- A uniform match that may be missing is uniform. -/
theorem uniform_optional (hp : p.Uniform) : (Matcher.optional p).Uniform := by
  intro start n
  unfold Matcher.optional
  rw [hp]
  cases p start <;> rfl

/-- A repetition of a uniform matcher is uniform. -/
theorem uniform_many (hp : p.Uniform) : Uniform (many p) := by
  intro start n
  induction hn : start.remaining using Nat.strongRecOn generalizing start with
  | ind k ih =>
    rw [many, many, hp]
    cases hstart : p start with
    | stalled => rfl
    | failed e => rfl
    | matched a middle earlier =>
      simp only [Outcome.later, Cursor.later_remaining]
      by_cases hlt : middle.remaining < start.remaining
      · simp only [hlt, if_true]
        rw [ih _ (hn ▸ hlt) middle rfl]
        cases many p middle with
        | stalled => rfl
        | failed e => exact congrArg Outcome.failed (Failure.later_furtherThan e earlier n)
        | matched as stop later =>
          exact congrArg (Outcome.matched _ _) (Failure.later_remember earlier later n)
      · simp only [hlt, if_false]

/-- A search for a uniform matcher is uniform. -/
theorem uniform_skipPast (hp : p.Uniform) : Uniform (skipPast p) := by
  intro start n
  induction hn : start.remaining using Nat.strongRecOn generalizing start with
  | ind k ih =>
    cases hstart : p start with
    | stalled =>
      rw [skipPast, skipPast, hp, hstart]
      rfl
    | matched a stop remembered =>
      rw [skipPast, skipPast, hp, hstart]
      rfl
    | failed e =>
      have hlater : p (start.later n) = .failed (e.later n) := by
        rw [hp, hstart]
        rfl
      rw [skipPast_of_failed hstart, skipPast_of_failed hlater, Cursor.later_next?]
      cases hnext : start.next? with
      | none => rfl
      | some found =>
        obtain ⟨c, next⟩ := found
        have hlt := Cursor.remaining_of_next? hnext
        simp only [Option.map_some]
        rw [ih _ (hn ▸ hlt) next rfl]
        cases skipPast p next with
        | stalled => rfl
        | failed f => rfl
        | matched u stop later =>
          exact congrArg (Outcome.matched () _) (Failure.later_remember (some e) later n)

/-- The end of the text is the end further back as well. -/
theorem uniform_atEnd : atEnd.Uniform := by
  intro start n
  unfold atEnd
  rw [Cursor.later_rest]
  cases start.rest with
  | nil => rfl
  | cons c cs => exact congrArg Outcome.failed (Failure.later_unexpectedAt start [none] n)

/-- The text of a uniform match is the same further back. -/
theorem uniform_withText (hp : p.Uniform) : (withText p).Uniform := by
  intro start n
  unfold withText
  rw [hp]
  cases p start with
  | stalled => rfl
  | failed e => rfl
  | matched a stop remembered => simp only [Outcome.later, Cursor.later_spanText]

/-- The value of a uniform match is checked in the same way everywhere. -/
theorem uniform_checked {check : α → Except String β} (hp : p.Uniform) :
    (checked p check).Uniform := by
  intro start n
  unfold checked
  rw [hp]
  cases p start with
  | stalled => rfl
  | failed e => rfl
  | matched a stop remembered =>
    simp only [Outcome.later]
    cases check a with
    | ok b => rfl
    | error message => exact congrArg Outcome.failed (Failure.later_refused start stop message n)

/-- Matchers stay uniform however they are put together. -/
theorem closed_uniform : Closed @Uniform where
  succeed _ _ _ := rfl
  fail message start n := congrArg Outcome.failed (Failure.later_refused start start message n)
  andThen := uniform_andThen
  orElse := uniform_orElse
  optional := uniform_optional
  many := uniform_many
  skipPast := uniform_skipPast
  satisfying := uniform_satisfying
  atEnd := uniform_atEnd
  withText := uniform_withText
  checked := uniform_checked

section

variable {start stop : Cursor} {a : α}

/-- A uniform matcher takes the same further back. -/
theorem Uniform.takes (hp : p.Uniform) (h : p.Takes start a stop) (n : ℕ) :
    p.Takes (start.later n) a (stop.later n) := by
  obtain ⟨remembered, h⟩ := h
  exact ⟨_, by rw [hp, h]; rfl⟩

/-- A uniform matcher fails at the same characters further back. -/
theorem Uniform.fails (hp : p.Uniform) (h : p.Fails start) (n : ℕ) : p.Fails (start.later n) := by
  obtain ⟨failure, h⟩ := h
  exact ⟨_, by rw [hp, h]; rfl⟩

end

end Matcher

end TypedGrammar
