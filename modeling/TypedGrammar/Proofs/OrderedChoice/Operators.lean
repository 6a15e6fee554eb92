import TypedGrammar.Proofs.OrderedChoice.Soundness
import TypedGrammar.Proofs.OrderedChoice.Symbols
import TypedGrammar.Proofs.Shape.Likeness

/-!
# The operators on shapes

The operators put shapes into a normal form: nested sequences and choices are spliced, shapes that
match nothing are dropped, a single item stands for itself.  The engine folds the lists that come
of this with backtracking.  Both agree: `a ++ b` is `a` and then `b`, `a ||| b` is `a` or else `b`,
and a repetition is a run of its item that goes on until the item fails.
-/

namespace TypedGrammar

/-! ## Runs -/

namespace Matcher

variable {α : Type}

/-- Occurrences of one match, each behind the one before it. -/
inductive Run (p : Matcher α) : Cursor → List α → Cursor → Prop
  | done {start : Cursor} : Run p start [] start
  | more {start middle stop : Cursor} {a : α} {values : List α} :
      p.Takes start a middle → Run p middle values stop → Run p start (a :: values) stop

/-- A match always consumes input. -/
def Consumes (p : Matcher α) : Prop :=
  ∀ {start a stop}, p.Takes start a stop → stop.remaining < start.remaining

section Runs

variable {p : Matcher α} {start stop : Cursor} {values : List α}

/-- A repetition takes a run that cannot be continued. -/
theorem takes_many_iff_run (hp : p.Consumes) :
    Takes (many p) start values stop ↔ p.Run start values stop ∧ p.Fails stop := by
  constructor
  · intro h
    induction values generalizing start with
    | nil =>
      rcases takes_many.mp h with ⟨hfails, -, rfl⟩ | ⟨_, _, _, _, _, _, hcons⟩
      · exact ⟨.done, hfails⟩
      · cases hcons
    | cons a values ih =>
      rcases takes_many.mp h with ⟨_, hnil, _⟩ | ⟨_, middle, _, ha, _, hrest, hcons⟩
      · cases hnil
      · cases hcons
        obtain ⟨hrun, hfails⟩ := ih hrest
        exact ⟨.more ha hrun, hfails⟩
  · rintro ⟨hrun, hfails⟩
    induction hrun with
    | done => exact takes_many.mpr (Or.inl ⟨hfails, rfl, rfl⟩)
    | more ha _ ih => exact takes_many.mpr (Or.inr ⟨_, _, _, ha, hp ha, ih hfails, rfl⟩)

/-- A repetition has no result only if its item has none at some place of the run. -/
theorem stalls_many_iff_run (hp : p.Consumes) :
    Stalls (many p) start ↔ ∃ values stop, p.Run start values stop ∧ p.Stalls stop := by
  constructor
  · intro h
    -- Each occurrence leaves less of the text for the others.
    induction hn : start.remaining using Nat.strongRecOn generalizing start with
    | ind n ih =>
      rcases stalls_many.mp h with hitem | ⟨a, middle, ha, hrest⟩
      · exact ⟨[], start, .done, hitem⟩
      · have hlt : middle.remaining < start.remaining := hp ha
        obtain ⟨values, stop, hrun, hstalls⟩ := ih _ (hn ▸ hlt) (hrest hlt) rfl
        exact ⟨a :: values, stop, .more ha hrun, hstalls⟩
  · rintro ⟨values, stop, hrun, hstalls⟩
    induction hrun with
    | done => exact stalls_many.mpr (Or.inl hstalls)
    | more ha _ ih => exact stalls_many.mpr (Or.inr ⟨_, _, ha, fun _ => ih hstalls⟩)

end Runs

/-! ## What operators are to do -/

/-- The second matcher goes on where the first one ended, and the trees of both are joined. -/
structure Sequences (p q both : Matcher (List Tree)) : Prop where
  takes : ∀ {start trees stop}, both.Takes start trees stop ↔
    ∃ first middle second, p.Takes start first middle ∧ q.Takes middle second stop ∧
      trees = first ++ second
  fails : ∀ {start}, both.Fails start ↔
    p.Fails start ∨ ∃ first middle, p.Takes start first middle ∧ q.Fails middle
  stalls : ∀ {start}, both.Stalls start ↔
    p.Stalls start ∨ ∃ first middle, p.Takes start first middle ∧ q.Stalls middle

/-- The result is that of the first matcher, or that of the second one from the same place where
the first fails. -/
structure Prefers (p q either : Matcher (List Tree)) : Prop where
  takes : ∀ {start trees stop}, either.Takes start trees stop ↔
    p.Takes start trees stop ∨ p.Fails start ∧ q.Takes start trees stop
  fails : ∀ {start}, either.Fails start ↔ p.Fails start ∧ q.Fails start
  stalls : ∀ {start}, either.Stalls start ↔ p.Stalls start ∨ p.Fails start ∧ q.Stalls start

/-- The trees are those of a run of at least so many occurrences, at whose end there is no further
one. -/
structure Repeats (least : ℕ) (p run : Matcher (List Tree)) : Prop where
  takes : ∀ {start trees stop}, run.Takes start trees stop ↔
    ∃ values, p.Run start values stop ∧ p.Fails stop ∧ least ≤ values.length ∧
      trees = values.flatten
  fails : ∀ {start}, run.Fails start ↔
    ∃ values stop, p.Run start values stop ∧ p.Fails stop ∧ values.length < least
  stalls : ∀ {start}, run.Stalls start ↔ ∃ values stop, p.Run start values stop ∧ p.Stalls stop

/-- Nested lists of shapes may be spliced, and what is empty or alone may be left out, without any
change of what is matched. -/
structure Splices (matcher : Shape → Matcher (List Tree)) : Prop where
  sequence : ∀ before inner after, matcher (.sequence (before ++ .sequence inner :: after)) =
    matcher (.sequence (before ++ (inner ++ after)))
  empty : ∀ before after,
    matcher (.sequence (before ++ .empty :: after)) = matcher (.sequence (before ++ after))
  choice : ∀ before inner after, inner ≠ [] →
    matcher (.choice (before ++ .choice inner :: after)) =
      matcher (.choice (before ++ (inner ++ after)))
  single : ∀ shape, matcher (.sequence [shape]) = matcher shape ∧
    matcher (.choice [shape]) = matcher shape

end Matcher

namespace Shape

open Matcher TypedGrammar.Language

/-! ## One after the other -/

theorem sequences_matchPair (p q : Matcher (List Tree)) : Sequences p q (matchPair p q) where
  takes := takes_matchPair
  fails := by
    intro start
    simp only [matchPair, fails_bind, fails_pure, and_false, exists_false, or_false]
  stalls := by
    intro start
    simp only [matchPair, stalls_bind, stalls_pure, and_false, exists_false, or_false]

theorem prefers_orElse (p q : Matcher (List Tree)) : Prefers p q (orElse p q) where
  takes := takes_orElse
  fails := fails_orElse
  stalls := stalls_orElse

/-! ## Repetitions -/

section Repetitions

variable {p : Matcher (List Tree)} {start stop : Cursor} {trees : List Tree}

/-- Without a delimiter, a repetition is an item and the run behind it. -/
theorem matchRepeated_nothing (p : Matcher (List Tree)) :
    matchRepeated p (succeed []) =
      andThen p fun first => andThen (many p) fun rest => succeed (first ++ rest.flatten) := by
  show (andThen p fun first => andThen (many (matchPair (succeed []) p)) fun rest =>
    succeed (first ++ rest.flatten)) = _
  rw [nothing_matchPair]

/-- A repetition of what consumes input is a run of at least one occurrence. -/
theorem repeats_matchRepeated (hp : p.Consumes) :
    Repeats 1 p (matchRepeated p (succeed [])) where
  takes := by
    intro start trees stop
    rw [matchRepeated_nothing]
    constructor
    · -- The first occurrence and those behind it are one run.
      intro h
      obtain ⟨first, middle, hfirst, h⟩ := takes_andThen.mp h
      obtain ⟨rest, _, hrest, h⟩ := takes_andThen.mp h
      obtain ⟨rfl, rfl⟩ := takes_succeed.mp h
      obtain ⟨hrun, hfails⟩ := (takes_many_iff_run hp).mp hrest
      exact ⟨first :: rest, .more hfirst hrun, hfails, Nat.le_add_left 1 _, rfl⟩
    · rintro ⟨values, hrun, hfails, hleast, rfl⟩
      cases hrun with
      | done => cases hleast
      | more hfirst hrun =>
        have hrest := (takes_many_iff_run hp).mpr ⟨hrun, hfails⟩
        exact takes_andThen.mpr ⟨_, _, hfirst,
          takes_andThen.mpr ⟨_, _, hrest, takes_succeed.mpr ⟨rfl, rfl⟩⟩⟩
  fails := by
    intro start
    rw [matchRepeated_nothing]
    constructor
    · intro h
      rcases fails_andThen.mp h with hfails | ⟨_, _, _, h⟩
      · exact ⟨[], start, .done, hfails, Nat.one_pos⟩
      · rcases fails_andThen.mp h with h | ⟨_, _, _, h⟩
        · exact absurd h fails_many
        · exact absurd h fails_succeed
    · rintro ⟨values, stop, hrun, hfails, hlt⟩
      cases hrun with
      | done => exact fails_andThen.mpr (Or.inl hfails)
      | more => exact absurd hlt (Nat.not_lt.mpr (Nat.le_add_left 1 _))
  stalls := by
    intro start
    rw [matchRepeated_nothing]
    constructor
    · intro h
      rcases stalls_andThen.mp h with hstalls | ⟨first, middle, hfirst, h⟩
      · exact ⟨[], start, .done, hstalls⟩
      · rcases stalls_andThen.mp h with h | ⟨_, _, _, h⟩
        · obtain ⟨values, stop, hrun, hstalls⟩ := (stalls_many_iff_run hp).mp h
          exact ⟨first :: values, stop, .more hfirst hrun, hstalls⟩
        · exact absurd h stalls_succeed
    · rintro ⟨values, stop, hrun, hstalls⟩
      cases hrun with
      | done => exact stalls_andThen.mpr (Or.inl hstalls)
      | more hfirst hrun =>
        have hrest := (stalls_many_iff_run hp).mpr ⟨_, _, hrun, hstalls⟩
        exact stalls_andThen.mpr (Or.inr ⟨_, _, hfirst, stalls_andThen.mpr (Or.inl hrest)⟩)

/-- A repetition that may be empty is a run of any number of occurrences. -/
theorem repeats_matchOrNothing {run : Matcher (List Tree)} (h : Repeats 1 p run) :
    Repeats 0 p (matchOrNothing true run) where
  takes := by
    intro start trees stop
    rw [takes_matchOrNothing, h.takes, h.fails]
    constructor
    · rintro (⟨values, hrun, hfails, _, rfl⟩ | ⟨_, ⟨values, _, hrun, hfails, hlt⟩, rfl, rfl⟩)
      · exact ⟨values, hrun, hfails, Nat.zero_le _, rfl⟩
      · obtain rfl := List.length_eq_zero_iff.mp (Nat.lt_one_iff.mp hlt)
        cases hrun
        exact ⟨[], .done, hfails, Nat.zero_le _, rfl⟩
    · rintro ⟨values, hrun, hfails, _, rfl⟩
      cases hrun with
      | done => exact Or.inr ⟨rfl, ⟨[], _, .done, hfails, Nat.one_pos⟩, rfl, rfl⟩
      | more hfirst hrun =>
        exact Or.inl ⟨_, .more hfirst hrun, hfails, Nat.le_add_left 1 _, rfl⟩
  fails := by
    intro start
    rw [fails_matchOrNothing]
    constructor
    · rintro ⟨_, h⟩
      cases h
    · rintro ⟨_, _, _, _, hlt⟩
      cases hlt
  stalls := stalls_matchOrNothing.trans h.stalls

end Repetitions

/-! ## Splicing -/

section Splicing

variable (term : TermIndex → Matcher (List Tree)) {a b : Shape}

theorem matchAll_cons (shape : Shape) (items : List Shape) :
    matchAll term (shape :: items) = matchPair (shape.matcher term) (matchAll term items) :=
  rfl

theorem alternatives_eq_nil {shape : Shape} : shape.alternatives = [] ↔ shape = .choice [] := by
  cases shape <;> simp [alternatives]

/-- A shape among alternatives is tried where those before it fail, and before those behind it. -/
theorem matchFirst_splice {shape : Shape} {inner : List Shape} (hinner : inner ≠ [])
    (h : shape.matcher term = matchFirst term inner) (before after : List Shape) :
    matchFirst term (before ++ shape :: after) = matchFirst term (before ++ (inner ++ after)) := by
  -- A choice without alternatives does not fail, so it is not neutral: lists that are empty are
  -- cases of their own.
  have hbehind : matchFirst term (shape :: after) = matchFirst term (inner ++ after) := by
    match after with
    | [] => rw [List.append_nil, ← h]; rfl
    | next :: after =>
      rw [matchFirst_append term hinner (List.cons_ne_nil _ _), ← h, matchFirst_cons_cons]
  match before with
  | [] => exact hbehind
  | first :: before =>
    have hmore : inner ++ after ≠ [] := mt List.append_eq_nil_iff.mp (mt And.left hinner)
    rw [matchFirst_append term (List.cons_ne_nil _ _) (List.cons_ne_nil _ _), hbehind,
      matchFirst_append term (List.cons_ne_nil _ _) hmore]

theorem splices_matcher : Splices fun shape => shape.matcher term where
  sequence before inner after := by
    show matchAll term _ = matchAll term _
    rw [matchAll_append, matchAll_cons, matchAll_append term before, matchAll_append]
    rfl
  empty before after := by
    show matchAll term _ = matchAll term _
    rw [matchAll_append, matchAll_cons, matchAll_append]
    exact congrArg _ (nothing_matchPair _)
  choice before inner after hinner := matchFirst_splice term hinner rfl before after
  single shape := ⟨matchAll_singleton term shape, rfl⟩

end Splicing

end Shape

/-! ## The operators of a language -/

namespace Language

open Matcher Shape

/-- What does not match nothing consumes input. -/
theorem consumes_of_not_takes {language : Language} {room : ℕ} {task : Task}
    (h : ∀ place trees, ¬ (language.taskMatcher room task).Takes place trees place) :
    (language.taskMatcher room task).Consumes := by
  intro start trees stop htakes
  obtain ⟨_, heval⟩ := (language.explains room task).takes htakes
  refine (Cursor.remaining_lt_iff heval.le).mpr (lt_of_le_of_ne heval.le ?_)
  rintro rfl
  exact h _ _ htakes

/-- A key term with a text consumes input. -/
theorem not_takes_nothing {language : Language} {room : ℕ} {index : TermIndex} {term : Term}
    {text : String} (hterm : language.term? index = some term) (hkind : term.kind = .key text)
    (htext : text ≠ "") (place : Cursor) (trees : List Tree) :
    ¬ (language.taskMatcher room (.shape (.term index))).Takes place trees place := by
  intro htakes
  obtain ⟨_, heval⟩ := (language.explains room _).takes htakes
  cases heval with
  | reference heval =>
    generalize hverdict : Verdict.matched _ place = verdict at heval
    cases heval with
    | scan hscan =>
      subst hverdict
      cases hscan with
      | token hterm' hskips hscans =>
        obtain rfl := Option.some.inj (hterm.symm.trans hterm')
        have hne : term.kind ≠ .key "" := fun h => htext (TermKind.key.inj (hkind.symm.trans h))
        exact absurd (hskips.le.trans_lt (hscans.lt hne)) (lt_irrefl _)
    | rule hdef =>
      obtain rfl := Option.some.inj (hterm.symm.trans hdef.1)
      cases hkind.symm.trans hdef.2
    | refused => cases hverdict

/-- **The operators on shapes.**  Whatever the language, the room for open rules and the place in
the text, the operators on shapes put together what is matched, and so do lists of shapes however
they are nested. -/
theorem operators_agree (language : Language) (room : ℕ) (a b : Shape) (ha : a ≠ .choice [])
    (hb : b ≠ .choice []) :
    let matcher shape := language.taskMatcher room (.shape shape)
    Sequences (matcher a) (matcher b) (matcher (a ++ b)) ∧
      Prefers (matcher a) (matcher b) (matcher (a ||| b)) ∧
      Prefers (matcher a) (succeed []) (matcher a.orEmpty) ∧
      ((∀ place trees, ¬ (matcher a).Takes place trees place) →
        Repeats 0 (matcher a) (matcher a.star) ∧ Repeats 1 (matcher a) (matcher a.plus)) ∧
      Splices matcher ∧ matcher (a ++ b) = matcher (.sequence [a, b]) ∧
      matcher (a ||| b) = matcher (.choice [a, b]) := by
  intro matcher
  have hnonempty : a.alternatives ≠ [] := mt alternatives_eq_nil.mp ha
  have hnonempty' : b.alternatives ≠ [] := mt alternatives_eq_nil.mp hb
  have happend : matcher (a ++ b) = matchPair (matcher a) (matcher b) := matcher_append _ a b
  have hor : matcher (a ||| b) = orElse (matcher a) (matcher b) :=
    matcher_or _ hnonempty hnonempty'
  have horEmpty : matcher a.orEmpty = orElse (matcher a) (succeed []) :=
    matcher_or (b := .empty) _ hnonempty (List.cons_ne_nil _ _)
  refine ⟨happend ▸ sequences_matchPair _ _, hor ▸ prefers_orElse _ _,
    horEmpty ▸ prefers_orElse _ _, fun hnothing => ?_, splices_matcher _, ?_, ?_⟩
  · have hplus := repeats_matchRepeated (consumes_of_not_takes hnothing)
    exact ⟨repeats_matchOrNothing hplus, hplus⟩
  · rw [happend]
    exact (congrArg (matchPair (matcher a)) (matchAll_singleton _ b)).symm
  · rw [hor]
    rfl

/-- The language of a rule of any number of pairs, each an `x` and then a `y`. -/
def pairsOfSymbols : Language :=
  ofRule (.star (.term firstSymbol ++ .term secondSymbol))
    [(firstSymbol, "x"), (secondSymbol, "y")]

theorem operators_agree_on_symbols :
    Shape.term firstSymbol ≠ .choice [] ∧ Shape.term secondSymbol ≠ .choice [] ∧
      Sequences (pairsOfSymbols.taskMatcher nestingLimit (.shape (.term firstSymbol)))
        (pairsOfSymbols.taskMatcher nestingLimit (.shape (.term secondSymbol)))
        (pairsOfSymbols.taskMatcher nestingLimit
          (.shape (.term firstSymbol ++ .term secondSymbol))) ∧
      (∀ place trees, ¬ (pairsOfSymbols.taskMatcher nestingLimit
        (.shape (.term firstSymbol))).Takes place trees place) ∧
      Repeats 1 (pairsOfSymbols.taskMatcher nestingLimit (.shape (.term firstSymbol)))
        (pairsOfSymbols.taskMatcher nestingLimit (.shape (.plus (.term firstSymbol)))) := by
  have htext : "x" ≠ "" := by decide
  have hconsumes : ∀ place trees, ¬ (pairsOfSymbols.taskMatcher nestingLimit
      (.shape (.term firstSymbol))).Takes place trees place :=
    not_takes_nothing rfl rfl htext
  have h := operators_agree pairsOfSymbols nestingLimit (.term firstSymbol) (.term secondSymbol)
    nofun nofun
  exact ⟨nofun, nofun, h.1, hconsumes, (h.2.2.2.1 hconsumes).2⟩

end Language

end TypedGrammar
