import TypedGrammar.Matching.Matcher
import TypedGrammar.Proofs.Matching.Place

/-!
# Laws of matchers

What a matcher does at some place, apart from the failures that it remembers: it takes the text up
to some place, it fails, or it stalls.  For each way to put matchers together there are three laws,
which say when the whole takes, fails and stalls.
-/

namespace TypedGrammar

namespace Matcher

variable {α β : Type}

/-- The matcher matches from `start` to `stop` with a value, whatever it remembers. -/
def Takes (p : Matcher α) (start : Cursor) (value : α) (stop : Cursor) : Prop :=
  ∃ remembered, p start = .matched value stop remembered

/-- The matcher fails, for whatever reason. -/
def Fails (p : Matcher α) (start : Cursor) : Prop :=
  ∃ failure, p start = .failed failure

/-- A repetition of nothing would go on forever. -/
def Stalls (p : Matcher α) (start : Cursor) : Prop :=
  p start = .stalled

section Outcomes

variable {p : Matcher α} {start stop stop' : Cursor} {a a' : α}

/-- At a place a matcher takes some of the text, or it fails, or it stalls. -/
theorem takes_or_fails_or_stalls (p : Matcher α) (start : Cursor) :
    (∃ a stop, p.Takes start a stop) ∨ p.Fails start ∨ p.Stalls start := by
  unfold Takes Fails Stalls
  cases p start <;> simp

/-- A match is unique. -/
theorem Takes.unique (h : p.Takes start a stop) (h' : p.Takes start a' stop') :
    a = a' ∧ stop = stop' := by
  obtain ⟨r, hr⟩ := h
  obtain ⟨r', hr'⟩ := h'
  rw [hr] at hr'
  injection hr' with ha hstop _
  exact ⟨ha, hstop⟩

/-- Where a matcher takes something it does not fail. -/
theorem Takes.not_fails (h : p.Takes start a stop) : ¬ p.Fails start := by
  rintro ⟨e, he⟩
  obtain ⟨r, hr⟩ := h
  rw [hr] at he
  cases he

end Outcomes

section Combinators

variable {p q : Matcher α} {start stop : Cursor}

/-! ## Success and failure -/

/-- A value that is given takes nothing of the text. -/
@[simp] theorem takes_succeed {value a : α} :
    (succeed value).Takes start a stop ↔ a = value ∧ stop = start := by
  simp only [Takes, succeed, Outcome.matched.injEq]
  constructor
  · rintro ⟨_, rfl, rfl, _⟩
    exact ⟨rfl, rfl⟩
  · rintro ⟨rfl, rfl⟩
    exact ⟨none, rfl, rfl, rfl⟩

/-- A value that is given is no failure. -/
@[simp] theorem fails_succeed {value : α} : ¬ (succeed value).Fails start := by
  simp [Fails, succeed]

/-- A value that is given does not stall. -/
@[simp] theorem stalls_succeed {value : α} : ¬ (succeed value).Stalls start := by
  simp [Stalls, succeed]

/-- The unit of the monad is the matcher that gives its value. -/
@[simp] theorem takes_pure {value a : α} :
    (pure value : Matcher α).Takes start a stop ↔ a = value ∧ stop = start :=
  takes_succeed

/-- The unit of the monad never fails. -/
@[simp] theorem fails_pure {value : α} : ¬ (pure value : Matcher α).Fails start :=
  fails_succeed

/-- The unit of the monad never stalls. -/
@[simp] theorem stalls_pure {value : α} : ¬ (pure value : Matcher α).Stalls start :=
  stalls_succeed

/-- A failure takes nothing. -/
@[simp] theorem takes_fail {message : String} {a : α} : ¬ (fail message).Takes start a stop := by
  simp [Takes, fail]

/-- A failure fails everywhere, whatever its message. -/
@[simp] theorem fails_fail {message : String} : (fail message : Matcher α).Fails start :=
  ⟨_, rfl⟩

/-- A failure does not stall. -/
@[simp] theorem stalls_fail {message : String} : ¬ (fail message : Matcher α).Stalls start := by
  simp [Stalls, fail]

/-! ## One after the other -/

/-- Of two matchers the second takes over where the first has stopped. -/
@[simp] theorem takes_andThen {f : α → Matcher β} {b : β} :
    (andThen p f).Takes start b stop ↔
      ∃ a middle, p.Takes start a middle ∧ (f a).Takes middle b stop := by
  unfold Takes andThen
  cases hp : p start with
  | matched a middle earlier =>
    cases hf : f a middle with
    | matched b' stop' later => simp [hf, and_assoc]
    | failed e => simp [hf, and_assoc]
    | stalled => simp [hf, and_assoc]
  | failed e => simp
  | stalled => simp

/-- Two matchers fail if the first does, or the second where the first has stopped. -/
@[simp] theorem fails_andThen {f : α → Matcher β} :
    (andThen p f).Fails start ↔
      p.Fails start ∨ ∃ a middle, p.Takes start a middle ∧ (f a).Fails middle := by
  unfold Takes Fails andThen
  cases hp : p start with
  | matched a middle earlier =>
    cases hf : f a middle with
    | matched b' stop' later => simp [hf, and_assoc]
    | failed e => simp [hf, and_assoc]
    | stalled => simp [hf, and_assoc]
  | failed e => simp
  | stalled => simp

/-- Two matchers stall if the first does, or the second where the first has stopped. -/
@[simp] theorem stalls_andThen {f : α → Matcher β} :
    (andThen p f).Stalls start ↔
      p.Stalls start ∨ ∃ a middle, p.Takes start a middle ∧ (f a).Stalls middle := by
  unfold Takes Stalls andThen
  cases hp : p start with
  | matched a middle earlier =>
    cases hf : f a middle with
    | matched b' stop' later => simp [hf, and_assoc]
    | failed e => simp [hf, and_assoc]
    | stalled => simp [hf, and_assoc]
  | failed e => simp
  | stalled => simp

/-- To bind is to match one after the other. -/
@[simp] theorem takes_bind {f : α → Matcher β} {b : β} :
    (p >>= f).Takes start b stop ↔
      ∃ a middle, p.Takes start a middle ∧ (f a).Takes middle b stop :=
  takes_andThen

/-- A bind fails where one of its two matchers does. -/
@[simp] theorem fails_bind {f : α → Matcher β} :
    (p >>= f).Fails start ↔
      p.Fails start ∨ ∃ a middle, p.Takes start a middle ∧ (f a).Fails middle :=
  fails_andThen

/-- A bind stalls where one of its two matchers does. -/
@[simp] theorem stalls_bind {f : α → Matcher β} :
    (p >>= f).Stalls start ↔
      p.Stalls start ∨ ∃ a middle, p.Takes start a middle ∧ (f a).Stalls middle :=
  stalls_andThen

/-! ## Choice -/

/-- Of two alternatives the second is taken only where the first fails. -/
@[simp] theorem takes_orElse {a : α} :
    (orElse p q).Takes start a stop ↔
      p.Takes start a stop ∨ p.Fails start ∧ q.Takes start a stop := by
  unfold Takes Fails orElse
  cases hp : p start with
  | matched a' stop' r => simp
  | failed e => cases hq : q start <;> simp
  | stalled => simp

/-- Alternatives fail where both of them do. -/
@[simp] theorem fails_orElse : (orElse p q).Fails start ↔ p.Fails start ∧ q.Fails start := by
  unfold Fails orElse
  cases hp : p start with
  | matched a' stop' r => simp
  | failed e => cases hq : q start <;> simp
  | stalled => simp

/-- Alternatives stall where the first does, or the second behind a failure of the first. -/
@[simp] theorem stalls_orElse :
    (orElse p q).Stalls start ↔ p.Stalls start ∨ p.Fails start ∧ q.Stalls start := by
  unfold Fails Stalls orElse
  cases hp : p start with
  | matched a' stop' r => simp
  | failed e => cases hq : q start <;> simp
  | stalled => simp

/-- An optional match is what there is to match, or nothing where the matcher fails. -/
@[simp] theorem takes_optional {found : Option α} :
    (Matcher.optional p).Takes start found stop ↔
      (∃ a, found = some a ∧ p.Takes start a stop) ∨
        found = none ∧ stop = start ∧ p.Fails start := by
  unfold Takes Fails Matcher.optional
  cases hp : p start with
  | matched a' stop' r =>
    constructor
    · rintro ⟨_, h⟩
      injection h with hfound hstop _
      exact Or.inl ⟨a', hfound.symm, r, by rw [hstop]⟩
    · rintro (⟨a, rfl, _, h⟩ | ⟨_, _, _, h⟩)
      · injection h with ha hstop _
        exact ⟨r, by rw [ha, hstop]⟩
      · cases h
  | failed e => simp [eq_comm]
  | stalled => simp

/-- An optional match never fails. -/
@[simp] theorem fails_optional : ¬ (Matcher.optional p).Fails start := by
  unfold Fails Matcher.optional
  cases p start <;> simp

/-- An optional match stalls where its matcher does. -/
@[simp] theorem stalls_optional : (Matcher.optional p).Stalls start ↔ p.Stalls start := by
  unfold Stalls Matcher.optional
  cases p start <;> simp

/-- The first of several matchers that matches, tried after another one. -/
theorem takes_foldl_orElse_iff {g : β → Matcher α} {l : List β} {a : α} :
    ((l.map g).foldl orElse q).Takes start a stop ↔
      q.Takes start a stop ∨ q.Fails start ∧ ∃ earlier x later, l = earlier ++ x :: later ∧
        (∀ y ∈ earlier, (g y).Fails start) ∧ (g x).Takes start a stop := by
  induction l generalizing q with
  | nil => simp
  | cons x l ih =>
    rw [List.map_cons, List.foldl_cons, ih, takes_orElse, fails_orElse]
    constructor
    · rintro ((hq | ⟨hq, hx⟩) | ⟨⟨hq, hx⟩, earlier, y, later, rfl, hearlier, hy⟩)
      · exact Or.inl hq
      · exact Or.inr ⟨hq, [], x, l, rfl, fun _ h => absurd h List.not_mem_nil, hx⟩
      · exact Or.inr ⟨hq, x :: earlier, y, later, rfl, List.forall_mem_cons.mpr ⟨hx, hearlier⟩, hy⟩
    · rintro (hq | ⟨hq, earlier, y, later, heq, hearlier, hy⟩)
      · exact Or.inl (Or.inl hq)
      · cases earlier with
        | nil =>
          obtain ⟨rfl, rfl⟩ := List.cons.inj heq
          exact Or.inl (Or.inr ⟨hq, hy⟩)
        | cons z earlier =>
          obtain ⟨rfl, rfl⟩ := List.cons.inj heq
          obtain ⟨hz, hearlier⟩ := List.forall_mem_cons.mp hearlier
          exact Or.inr ⟨⟨hq, hz⟩, earlier, y, later, rfl, hearlier, hy⟩

/-- Several alternatives behind another one fail where all of them do. -/
theorem fails_foldl_orElse_iff {g : β → Matcher α} {l : List β} :
    ((l.map g).foldl orElse q).Fails start ↔ q.Fails start ∧ ∀ x ∈ l, (g x).Fails start := by
  induction l generalizing q with
  | nil => simp
  | cons x l ih =>
    rw [List.map_cons, List.foldl_cons, ih, fails_orElse, List.forall_mem_cons, and_assoc]

/-! ## Repetition -/

/-- A repetition takes nothing more where its item fails; otherwise the item takes something and
the repetition goes on behind it. -/
theorem takes_many {values : List α} :
    Takes (many p) start values stop ↔
      (p.Fails start ∧ values = [] ∧ stop = start) ∨
        ∃ a middle rest, p.Takes start a middle ∧ middle.remaining < start.remaining ∧
          Takes (many p) middle rest stop ∧ values = a :: rest := by
  unfold Takes Fails
  rw [many]
  cases hp : p start with
  | matched a middle r =>
    by_cases hlt : middle.remaining < start.remaining
    · cases hm : many p middle with
      | matched as stop' later =>
        simp only [hlt, if_true, Outcome.matched.injEq, and_assoc, reduceCtorEq, exists_false,
          false_and, false_or, exists_and_left, exists_eq_left', hm, true_and]
        constructor
        · rintro ⟨rfl, rfl, _, _⟩
          exact ⟨⟨r, rfl⟩, rfl, ⟨later, rfl⟩, rfl⟩
        · rintro ⟨_, rfl, _, rfl⟩
          exact ⟨rfl, rfl, _, rfl⟩
      | failed e => simp [hlt, hm, and_assoc]
      | stalled => simp [hlt, hm, and_assoc]
    · simp [hlt]
  | failed e => simp [eq_comm]
  | stalled => simp

/-- A repetition never fails, as it may match nothing. -/
@[simp] theorem fails_many : ¬ Fails (many p) start := by
  induction hn : start.remaining using Nat.strongRecOn generalizing start with
  | ind n ih =>
    rintro ⟨e, he⟩
    rw [many] at he
    cases hp : p start with
    | matched a middle r =>
      by_cases hlt : middle.remaining < start.remaining
      · have hrest : ¬ Fails (many p) middle := ih _ (hn ▸ hlt) rfl
        cases hm : many p middle with
        | matched as stop later => simp [hp, hlt, hm] at he
        | failed f => exact hrest ⟨f, hm⟩
        | stalled => simp [hp, hlt, hm] at he
      · simp [hp, hlt] at he
    | failed f => simp [hp] at he
    | stalled => simp [hp] at he

/-- A repetition stalls where its item does, where the item takes nothing, or further on. -/
theorem stalls_many :
    Stalls (many p) start ↔
      p.Stalls start ∨ ∃ a middle, p.Takes start a middle ∧
        (middle.remaining < start.remaining → Stalls (many p) middle) := by
  unfold Takes Stalls
  rw [many]
  cases hp : p start with
  | matched a middle r =>
    by_cases hlt : middle.remaining < start.remaining
    · -- The repetition behind the item cannot fail, so it stalls or the whole does not.
      have hrest : ¬ Fails (many p) middle := fails_many
      cases hm : many p middle with
      | matched as stop later => simp [hlt, hm, and_assoc]
      | failed e => exact absurd ⟨e, hm⟩ hrest
      | stalled => simp [hlt, hm, and_assoc]
    · simp [hlt, and_assoc]
  | failed e => simp
  | stalled => simp

/-! ## Searching -/

/-- Where there is no match, the search goes on behind the next character, if there is one. -/
theorem skipPast_of_failed {e : Failure} (h : p start = .failed e) :
    skipPast p start =
      match start.next? with
      | none => .failed e
      | some (_, next) =>
        match skipPast p next with
        | .matched _ stop later => .matched () stop (Failure.remember (some e) later)
        | outcome => outcome := by
  rw [skipPast, h]
  simp only
  split
  · next hnext => rw [hnext]
  · next c next hnext =>
    cases hrest : skipPast p next <;> simp only [hnext, hrest]

/-- The search ends here, or goes on behind the next character. -/
theorem takes_skipPast {u : Unit} :
    Takes (skipPast p) start u stop ↔ (∃ a, p.Takes start a stop) ∨
      p.Fails start ∧ ∃ c next, start.next? = some (c, next) ∧ Takes (skipPast p) next u stop := by
  unfold Takes Fails
  cases hp : p start with
  | matched a middle r =>
    rw [skipPast, hp]
    simp
  | stalled =>
    rw [skipPast, hp]
    simp
  | failed e =>
    rw [skipPast_of_failed hp]
    cases hnext : start.next? with
    | none => simp
    | some found =>
      obtain ⟨c, next⟩ := found
      cases hrest : skipPast p next <;> simp [hrest, and_assoc]

/-- To skip past a match fails where there is no match up to the end of the text. -/
theorem fails_skipPast :
    Fails (skipPast p) start ↔
      p.Fails start ∧ ∀ c next, start.next? = some (c, next) → Fails (skipPast p) next := by
  unfold Fails
  cases hp : p start with
  | matched a middle r =>
    rw [skipPast, hp]
    simp
  | stalled =>
    rw [skipPast, hp]
    simp
  | failed e =>
    rw [skipPast_of_failed hp]
    cases hnext : start.next? with
    | none => simp
    | some found =>
      obtain ⟨c, next⟩ := found
      cases hrest : skipPast p next <;> simp [hrest]

/-- To skip past a match stalls at the first place where the matcher does not fail, if it stalls
there. -/
theorem stalls_skipPast :
    Stalls (skipPast p) start ↔ p.Stalls start ∨
      p.Fails start ∧ ∃ c next, start.next? = some (c, next) ∧ Stalls (skipPast p) next := by
  unfold Fails Stalls
  cases hp : p start with
  | matched a middle r =>
    rw [skipPast, hp]
    simp
  | stalled =>
    rw [skipPast, hp]
    simp
  | failed e =>
    rw [skipPast_of_failed hp]
    cases hnext : start.next? with
    | none => simp
    | some found =>
      obtain ⟨c, next⟩ := found
      cases hrest : skipPast p next <;> simp [hrest, and_assoc]

/-! ## Characters -/

/-- A character with a property takes the next character, if it has the property. -/
theorem takes_satisfying {f : Char → Bool} {expected : List (Option Char)} {c : Char} :
    (satisfying f expected).Takes start c stop ↔ start.next? = some (c, stop) ∧ f c := by
  unfold Takes satisfying
  cases hn : start.next? with
  | none => simp
  | some next =>
    obtain ⟨d, after⟩ := next
    by_cases hf : f d
    · simp only [hf, if_true, Outcome.matched.injEq, Option.some.injEq, Prod.mk.injEq]
      constructor
      · rintro ⟨_, rfl, rfl, _⟩
        exact ⟨⟨rfl, rfl⟩, hf⟩
      · rintro ⟨⟨rfl, rfl⟩, _⟩
        exact ⟨none, rfl, rfl, rfl⟩
    · simp only [hf, Bool.false_eq_true, if_false, reduceCtorEq, exists_false, Option.some.injEq,
        Prod.mk.injEq, false_iff, not_and]
      rintro ⟨rfl, rfl⟩
      exact hf

/-- A single character does not stall. -/
theorem stalls_satisfying {f : Char → Bool} {expected : List (Option Char)} :
    ¬ (satisfying f expected).Stalls start := by
  unfold Stalls satisfying
  cases start.next? with
  | none => simp
  | some next =>
    obtain ⟨d, after⟩ := next
    by_cases hf : f d <;> simp [hf]

/-- A character fails where the next one does not have the property, or there is none. -/
theorem fails_satisfying {f : Char → Bool} {expected : List (Option Char)} :
    (satisfying f expected).Fails start ↔ start.rest.head?.any f = false := by
  rw [Option.any_eq_false]
  constructor
  · intro hfails c hhead
    obtain ⟨cs, hrest⟩ := List.head?_eq_some_iff.mp hhead
    obtain ⟨next, hnext, _⟩ := Cursor.next?_of_rest hrest
    by_contra hc
    have htakes : (satisfying f expected).Takes start c next :=
      takes_satisfying.mpr ⟨hnext, by rwa [Bool.not_eq_false] at hc⟩
    exact htakes.not_fails hfails
  · intro h
    rcases takes_or_fails_or_stalls (satisfying f expected) start with
      ⟨c, middle, htakes⟩ | hfails | hstalls
    · obtain ⟨hnext, hc⟩ := takes_satisfying.mp htakes
      have hhead : start.rest.head? = some c := by
        rw [(Cursor.spans_of_next? hnext).1]
        rfl
      rw [h c hhead] at hc
      cases hc
    · exact hfails
    · exact absurd hstalls stalls_satisfying

/-- As many characters with a property as follow each other are taken. -/
theorem exists_takes_many_charWhere {f : Char → Bool} {cs : List Char}
    (hspans : start.Spans stop cs) (hcs : ∀ c ∈ cs, f c = true)
    (hstop : stop.rest.head?.any f = false) :
    ∃ values, Takes (many (charWhere f)) start values stop := by
  induction cs generalizing start with
  | nil =>
    obtain rfl := hspans.eq_of_nil
    exact ⟨[], takes_many.mpr (Or.inl ⟨fails_satisfying.mpr hstop, rfl, rfl⟩)⟩
  | cons c cs ih =>
    obtain ⟨next, hnext, hspans'⟩ := hspans.exists_next
    obtain ⟨values, hvalues⟩ := ih hspans' fun d hd => hcs d (List.mem_cons_of_mem c hd)
    have hc : (charWhere f).Takes start c next :=
      takes_satisfying.mpr ⟨hnext, hcs c List.mem_cons_self⟩
    have hlt := Cursor.remaining_of_next? hnext
    exact ⟨c :: values, takes_many.mpr (Or.inr ⟨c, next, values, hc, hlt, hvalues, rfl⟩)⟩

/-- Given characters are taken exactly where they stand. -/
theorem takes_exactly {cs : List Char} {u : Unit} :
    (exactly cs).Takes start u stop ↔ start.Spans stop cs := by
  induction cs generalizing start with
  | nil =>
    rw [exactly, takes_succeed]
    constructor
    · rintro ⟨_, rfl⟩
      exact Cursor.spans_nil _
    · intro h
      exact ⟨rfl, h.eq_of_nil⟩
  | cons c cs ih =>
    rw [exactly, takes_andThen]
    constructor
    · rintro ⟨d, middle, hd, hrest⟩
      obtain ⟨hnext, hmem⟩ := takes_satisfying.mp hd
      have hdc : d = c := by simpa using hmem
      subst hdc
      exact (Cursor.spans_of_next? hnext).append (ih.mp hrest)
    · intro h
      obtain ⟨middle, hnext, hspan⟩ := h.exists_next
      exact ⟨c, middle, takes_satisfying.mpr ⟨hnext, by simp⟩, ih.mpr hspan⟩

/-- Exact characters do not stall. -/
@[simp] theorem stalls_exactly {cs : List Char} : ¬ (exactly cs).Stalls start := by
  induction cs generalizing start with
  | nil => exact stalls_succeed
  | cons c cs ih =>
    rw [exactly, stalls_andThen]
    rintro (h | ⟨_, _, _, h⟩)
    · exact stalls_satisfying h
    · exact ih h

/-- An exact text takes the characters of the text. -/
theorem takes_exactText {text : String} {u : Unit} :
    (exactText text).Takes start u stop ↔ start.Spans stop text.toList :=
  takes_exactly

/-- An exact text does not stall. -/
@[simp] theorem stalls_exactText {text : String} : ¬ (exactText text).Stalls start :=
  stalls_exactly

/-- The end is matched where nothing remains. -/
theorem takes_atEnd {u : Unit} : atEnd.Takes start u stop ↔ start.rest = [] ∧ stop = start := by
  unfold Takes atEnd
  cases start.rest <;> simp [eq_comm]

/-- The end of the text fails where characters remain. -/
theorem fails_atEnd : atEnd.Fails start ↔ start.rest ≠ [] := by
  unfold Fails atEnd
  cases start.rest <;> simp

/-- The end of the text does not stall. -/
theorem stalls_atEnd : ¬ atEnd.Stalls start := by
  unfold Stalls atEnd
  cases start.rest <;> simp

/-! ## What was matched -/

/-- The text of a match is the text of the span from its start to its stop. -/
@[simp] theorem takes_withText {result : α × String} :
    (withText p).Takes start result stop ↔
      p.Takes start result.1 stop ∧ result.2 = start.spanText stop := by
  obtain ⟨a, text⟩ := result
  unfold Takes withText
  cases hp : p start with
  | matched a' stop' r =>
    simp only [Outcome.matched.injEq, Prod.mk.injEq]
    constructor
    · rintro ⟨_, ⟨rfl, rfl⟩, rfl, rfl⟩
      exact ⟨⟨_, rfl, rfl, rfl⟩, rfl⟩
    · rintro ⟨⟨_, rfl, rfl, rfl⟩, rfl⟩
      exact ⟨_, ⟨rfl, rfl⟩, rfl, rfl⟩
  | failed e => simp
  | stalled => simp

/-- A match with its text fails where the match does. -/
@[simp] theorem fails_withText : (withText p).Fails start ↔ p.Fails start := by
  unfold Fails withText
  cases p start <;> simp

/-- A match with its text stalls where the match does. -/
@[simp] theorem stalls_withText : (withText p).Stalls start ↔ p.Stalls start := by
  unfold Stalls withText
  cases p start <;> simp

/-- A checked match takes what its matcher takes, if the check accepts the value. -/
@[simp] theorem takes_checked {check : α → Except String β} {b : β} :
    (checked p check).Takes start b stop ↔ ∃ a, p.Takes start a stop ∧ check a = .ok b := by
  unfold Takes checked
  cases hp : p start with
  | matched a' stop' r =>
    cases hc : check a' with
    | ok b' =>
      simp only [hc, Outcome.matched.injEq]
      constructor
      · rintro ⟨_, rfl, rfl, rfl⟩
        exact ⟨a', ⟨_, rfl, rfl, rfl⟩, hc⟩
      · rintro ⟨_, ⟨_, rfl, rfl, rfl⟩, hok⟩
        rw [hc] at hok
        exact ⟨_, Except.ok.inj hok, rfl, rfl⟩
    | error message =>
      simp only [hc, reduceCtorEq, exists_false, Outcome.matched.injEq, false_iff, not_exists,
        not_and]
      rintro _ ⟨_, rfl, rfl, rfl⟩ hok
      rw [hc] at hok
      cases hok
  | failed e => simp
  | stalled => simp

/-- A checked match stalls where its matcher does. -/
@[simp] theorem stalls_checked {check : α → Except String β} :
    (checked p check).Stalls start ↔ p.Stalls start := by
  unfold Stalls checked
  cases hp : p start with
  | matched a' stop' r => cases hc : check a' <;> simp [hc]
  | failed e => simp
  | stalled => simp

end Combinators

end Matcher

end TypedGrammar
