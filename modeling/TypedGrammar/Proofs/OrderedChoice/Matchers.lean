import TypedGrammar.Matching.Parse
import TypedGrammar.Proofs.OrderedChoice.Attempts

/-!
# The matchers of tasks

The engine has a matcher for each task of ordered choice.  The laws of these matchers say when they
take something, fail and stall, in terms of the matchers of the tasks that they try.
-/

namespace TypedGrammar

/-! ## Terminals -/

namespace Matcher

variable {comments : List Comment} {lexicon : Lexicon} {kind : TermKind} {index : TermIndex}
  {token : Matcher String} {start stop : Cursor}

/-- What the matcher of trivia takes is skipped, and its text is that of the token. -/
theorem skips_of_takes_trivia {text : Option String}
    (h : (trivia comments).Takes start text stop) :
    Skips comments start stop ∧ triviaTokens text = skipped start stop := by
  obtain ⟨items, hitems, rfl⟩ := takes_trivia.mp h
  refine ⟨⟨items, hitems⟩, ?_⟩
  obtain ⟨hle, hnil⟩ := le_of_takes_many (eager_triviaItem comments).steady hitems
  -- Something was skipped exactly if the list of items is not empty.
  by_cases hempty : items = []
  · have hstop := hnil.mp hempty
    simp [hempty, hstop, triviaTokens, skipped]
  · have hlt : start < stop := lt_of_le_of_ne hle fun h => hempty (hnil.mpr h)
    simp [hempty, triviaTokens, skipped, Cursor.index_lt_of_lt hlt, Cursor.spanText_eq_between hlt]

/-- What may be skipped is taken by the matcher of trivia. -/
theorem takes_trivia_of_skips (h : Skips comments start stop) :
    ∃ text, (trivia comments).Takes start text stop := by
  obtain ⟨items, hitems⟩ := h
  exact ⟨_, takes_trivia.mpr ⟨items, hitems, rfl⟩⟩

/-- Trivia is skipped before the token of a terminal. -/
theorem takes_terminal {trees : List Tree} :
    (terminal comments index token).Takes start trees stop ↔
      ∃ middle text, Skips comments start middle ∧ token.Takes middle text stop ∧
        trees = skipped start middle ++ [.token (.term index) text] := by
  constructor
  · intro h
    obtain ⟨found, middle, hfound, h⟩ := takes_bind.mp h
    obtain ⟨text, stop', htext, h⟩ := takes_bind.mp h
    obtain ⟨rfl, rfl⟩ := takes_pure.mp h
    obtain ⟨hskips, htrees⟩ := skips_of_takes_trivia hfound
    exact ⟨middle, text, hskips, htext, by rw [htrees]⟩
  · rintro ⟨middle, text, hskips, htext, rfl⟩
    obtain ⟨found, hfound⟩ := takes_trivia_of_skips hskips
    rw [← (skips_of_takes_trivia hfound).2]
    exact takes_bind.mpr ⟨found, middle, hfound,
      takes_bind.mpr ⟨text, stop, htext, takes_pure.mpr ⟨rfl, rfl⟩⟩⟩

/-- A terminal fails where its token does, behind the trivia. -/
theorem fails_terminal :
    (terminal comments index token).Fails start ↔
      ∃ middle, Skips comments start middle ∧ token.Fails middle := by
  constructor
  · intro h
    rcases fails_bind.mp h with h | ⟨found, middle, hfound, h⟩
    · exact absurd h not_fails_trivia
    · rcases fails_bind.mp h with h | ⟨_, _, _, h⟩
      · exact ⟨middle, (skips_of_takes_trivia hfound).1, h⟩
      · exact absurd h fails_pure
  · rintro ⟨middle, hskips, htoken⟩
    obtain ⟨found, hfound⟩ := takes_trivia_of_skips hskips
    exact fails_bind.mpr (Or.inr ⟨found, middle, hfound, fails_bind.mpr (Or.inl htoken)⟩)

/-- A terminal never stalls. -/
theorem not_stalls_terminal (htoken : tokenText? lexicon kind = some token) :
    ¬ (terminal comments index token).Stalls start :=
  (steady_bind (steady_trivia comments) fun _ =>
    steady_bind (steady_token htoken) fun _ => steady_pure _).settles

end Matcher

namespace Language

open Matcher Shape

/-! ## The matcher of a task -/

/-- A delimiter and an item. -/
def matchPair (delimiter item : Matcher (List Tree)) : Matcher (List Tree) := do
  let between ← delimiter
  return between ++ (← item)

/-- The matcher of a task, while `room` more rules may be opened. -/
def taskMatcher (language : Language) (room : ℕ) : Task → Matcher (List Tree)
  | .term index => language.matchTerm language.lexicon room index
  | .shape shape => shape.matcher (language.matchTerm language.lexicon room)
  | .all shapes => matchAll (language.matchTerm language.lexicon room) shapes
  | .first shape others => matchFirst (language.matchTerm language.lexicon room) (shape :: others)
  | .items item delimiter trailing =>
    let item := item.matcher (language.matchTerm language.lexicon room)
    let delimiter := delimiter.matcher (language.matchTerm language.lexicon room)
    matchTrailing trailing (matchRepeated item delimiter) delimiter
  | .pairs item delimiter => do
    let item := item.matcher (language.matchTerm language.lexicon room)
    let delimiter := delimiter.matcher (language.matchTerm language.lexicon room)
    let pairs ← many (matchPair delimiter item)
    return pairs.flatten

variable {language : Language} {room : ℕ} {start stop : Cursor} {trees : List Tree}

/-- What the matcher of a term is: a failure, a terminal, or the shape of a rule in a node. -/
theorem taskMatcher_term (language : Language) (room : ℕ) (index : TermIndex) :
    (∃ message, language.taskMatcher room (.term index) = fail message ∧
        ∀ start, language.ScansTerm index start .failed) ∨
      (∃ term token, language.term? index = some term ∧
        tokenText? language.lexicon term.kind = some token ∧
        language.taskMatcher room (.term index) = terminal language.comments index token) ∨
      ∃ term shape, language.Defines index term shape ∧
        language.taskMatcher room (.term index) =
          match room with
          | 0 => fail nestingMessage
          | room + 1 =>
            andThen (language.taskMatcher room (.shape shape)) fun children =>
              succeed (ruleTrees index term children) := by
  rw [taskMatcher, matchTerm]
  cases hterm : language.term? index with
  | none => exact Or.inl ⟨_, rfl, fun start => .unknown hterm⟩
  | some term =>
    simp only
    cases htoken : tokenText? language.lexicon term.kind with
    | some token => exact Or.inr (Or.inl ⟨term, token, rfl, htoken, rfl⟩)
    | none =>
      simp only
      cases hshape : term.shape? with
      | none =>
        refine Or.inl ⟨_, rfl, fun start => .undefined hterm ?_⟩
        cases hkind : term.kind <;> simp_all [tokenText?, Term.shape?]
      | some shape =>
        refine Or.inr (Or.inr ⟨term, shape, ⟨hterm, ?_⟩, rfl⟩)
        cases hkind : term.kind <;> simp_all [tokenText?, Term.shape?]

/-! ## Laws of the matchers of shapes -/

section Laws

variable {shape : Shape} {items : List Shape} {item delimiter : Matcher (List Tree)}
  {term : TermIndex → Matcher (List Tree)}

theorem matchAll_nil : matchAll term [] = succeed [] := by
  rw [matchAll]

/-- A row of shapes takes what the first does, and then what the others do. -/
theorem takes_matchAll_cons :
    (matchAll term (shape :: items)).Takes start trees stop ↔
      ∃ found middle more, (shape.matcher term).Takes start found middle ∧
        (matchAll term items).Takes middle more stop ∧ trees = found ++ more := by
  rw [matchAll, takes_andThen]
  constructor
  · rintro ⟨found, middle, hfound, h⟩
    obtain ⟨more, stop', hmore, h⟩ := takes_andThen.mp h
    obtain ⟨rfl, rfl⟩ := takes_succeed.mp h
    exact ⟨found, middle, more, hfound, hmore, rfl⟩
  · rintro ⟨found, middle, more, hfound, hmore, rfl⟩
    exact ⟨found, middle, hfound,
      takes_andThen.mpr ⟨more, stop, hmore, takes_succeed.mpr ⟨rfl, rfl⟩⟩⟩

/-- A row of shapes fails at its first shape, or behind it. -/
theorem fails_matchAll_cons :
    (matchAll term (shape :: items)).Fails start ↔
      (shape.matcher term).Fails start ∨
        ∃ found middle, (shape.matcher term).Takes start found middle ∧
          (matchAll term items).Fails middle := by
  rw [matchAll, fails_andThen]
  simp only [fails_andThen, fails_succeed, and_false, exists_false, or_false]

/-- A row of shapes stalls at its first shape, or behind it. -/
theorem stalls_matchAll_cons :
    (matchAll term (shape :: items)).Stalls start ↔
      (shape.matcher term).Stalls start ∨
        ∃ found middle, (shape.matcher term).Takes start found middle ∧
          (matchAll term items).Stalls middle := by
  rw [matchAll, stalls_andThen]
  simp only [stalls_andThen, stalls_succeed, and_false, exists_false, or_false]

/-- A choice with a next alternative tries it where the first one fails. -/
theorem matchFirst_cons_cons (next : Shape) :
    matchFirst term (shape :: next :: items) =
      orElse (shape.matcher term) (matchFirst term (next :: items)) := by
  rw [matchFirst]
  exact fun h => List.cons_ne_nil _ _ h

/-- A pair is matched as its delimiter and its item in order. -/
theorem takes_matchPair :
    (matchPair delimiter item).Takes start trees stop ↔
      ∃ between middle found, delimiter.Takes start between middle ∧
        item.Takes middle found stop ∧ trees = between ++ found := by
  unfold matchPair
  constructor
  · intro h
    obtain ⟨between, middle, hbetween, h⟩ := takes_bind.mp h
    obtain ⟨found, stop', hfound, h⟩ := takes_bind.mp h
    obtain ⟨rfl, rfl⟩ := takes_pure.mp h
    exact ⟨between, middle, found, hbetween, hfound, rfl⟩
  · rintro ⟨between, middle, found, hbetween, hfound, rfl⟩
    exact takes_bind.mpr ⟨between, middle, hbetween,
      takes_bind.mpr ⟨found, stop, hfound, takes_pure.mpr ⟨rfl, rfl⟩⟩⟩

/-- A delimiter and an item are taken as a row of two shapes. -/
theorem takes_matchAll_pair {d i : Shape} :
    (matchAll term [d, i]).Takes start trees stop ↔
      (matchPair (d.matcher term) (i.matcher term)).Takes start trees stop := by
  simp only [takes_matchAll_cons, takes_matchPair, matchAll_nil, takes_succeed]
  constructor
  · rintro ⟨between, middle, more, hbetween, ⟨found, _, _, hfound, ⟨rfl, rfl⟩, rfl⟩, rfl⟩
    exact ⟨between, middle, found, hbetween, hfound, by rw [List.append_nil]⟩
  · rintro ⟨between, middle, found, hbetween, hfound, rfl⟩
    exact ⟨between, middle, found, hbetween,
      ⟨found, stop, [], hfound, ⟨rfl, rfl⟩, (List.append_nil _).symm⟩, rfl⟩

theorem fails_matchAll_pair {d i : Shape} :
    (matchAll term [d, i]).Fails start ↔
      (matchPair (d.matcher term) (i.matcher term)).Fails start := by
  simp only [fails_matchAll_cons, matchPair, fails_bind, matchAll_nil, fails_succeed, fails_pure,
    and_false, exists_false, or_false]

theorem stalls_matchAll_pair {d i : Shape} :
    (matchAll term [d, i]).Stalls start ↔
      (matchPair (d.matcher term) (i.matcher term)).Stalls start := by
  simp only [stalls_matchAll_cons, matchPair, stalls_bind, matchAll_nil, stalls_succeed,
    stalls_pure, and_false, exists_false, or_false]

/-- What may be missing is taken, or nothing where it fails. -/
theorem takes_matchOrNothing {allowed : Bool} {p : Matcher (List Tree)} :
    (matchOrNothing allowed p).Takes start trees stop ↔
      p.Takes start trees stop ∨ allowed = true ∧ p.Fails start ∧ trees = [] ∧ stop = start := by
  cases allowed with
  | false => simp [matchOrNothing]
  | true =>
    simp only [matchOrNothing, if_true, takes_bind, takes_optional, takes_pure]
    constructor
    · rintro ⟨_, middle, ⟨found, rfl, hfound⟩ | ⟨rfl, rfl, hfails⟩, rfl, rfl⟩
      · exact Or.inl hfound
      · exact Or.inr ⟨trivial, hfails, rfl, rfl⟩
    · rintro (h | ⟨_, hfails, rfl, rfl⟩)
      · exact ⟨some trees, stop, Or.inl ⟨trees, rfl, h⟩, rfl, rfl⟩
      · exact ⟨none, stop, Or.inr ⟨rfl, rfl, hfails⟩, rfl, rfl⟩

/-- What may be missing does not fail. -/
theorem fails_matchOrNothing {allowed : Bool} {p : Matcher (List Tree)} :
    (matchOrNothing allowed p).Fails start ↔ p.Fails start ∧ allowed = false := by
  cases allowed <;> simp [matchOrNothing]

/-- What may be missing stalls where it would anyway. -/
theorem stalls_matchOrNothing {allowed : Bool} {p : Matcher (List Tree)} :
    (matchOrNothing allowed p).Stalls start ↔ p.Stalls start := by
  cases allowed <;> simp [matchOrNothing]

end Laws

/-! ## Laws of the matchers of repetitions -/

section Repetitions

variable {item delimiter : Shape}

/-- Pairs go on where a pair takes something, and end where it fails. -/
theorem takes_pairs :
    (language.taskMatcher room (.pairs item delimiter)).Takes start trees stop ↔
      (language.taskMatcher room (.all [delimiter, item])).Fails start ∧ trees = [] ∧
          stop = start ∨
        ∃ found middle more,
          (language.taskMatcher room (.all [delimiter, item])).Takes start found middle ∧
            middle.remaining < start.remaining ∧
            (language.taskMatcher room (.pairs item delimiter)).Takes middle more stop ∧
            trees = found ++ more := by
  simp only [taskMatcher, takes_matchAll_pair, fails_matchAll_pair]
  constructor
  · intro h
    obtain ⟨pairs, _, hpairs, h⟩ := takes_bind.mp h
    obtain ⟨rfl, rfl⟩ := takes_pure.mp h
    rcases takes_many.mp hpairs with
      ⟨hfails, rfl, rfl⟩ | ⟨found, middle, rest, hfound, hlt, hrest, rfl⟩
    · exact Or.inl ⟨hfails, rfl, rfl⟩
    · refine Or.inr ⟨found, middle, rest.flatten, hfound, hlt, ?_, rfl⟩
      exact takes_bind.mpr ⟨rest, _, hrest, takes_pure.mpr ⟨rfl, rfl⟩⟩
  · rintro (⟨hfails, rfl, rfl⟩ | ⟨found, middle, more, hfound, hlt, h, rfl⟩)
    · have hpairs := takes_many.mpr (Or.inl ⟨hfails, rfl, rfl⟩)
      exact takes_bind.mpr ⟨[], _, hpairs, takes_pure.mpr ⟨rfl, rfl⟩⟩
    · obtain ⟨rest, _, hrest, h⟩ := takes_bind.mp h
      obtain ⟨rfl, rfl⟩ := takes_pure.mp h
      have hpairs := takes_many.mpr (Or.inr ⟨found, middle, rest, hfound, hlt, hrest, rfl⟩)
      exact takes_bind.mpr ⟨found :: rest, _, hpairs, takes_pure.mpr ⟨rfl, rfl⟩⟩

/-- Any number of pairs may be missing, so they never fail. -/
theorem not_fails_pairs : ¬ (language.taskMatcher room (.pairs item delimiter)).Fails start := by
  intro h
  rcases fails_bind.mp h with h | ⟨_, _, _, h⟩
  · exact fails_many h
  · exact fails_pure h

/-- Pairs stall at the first one, or behind it if it takes something. -/
theorem stalls_pairs :
    (language.taskMatcher room (.pairs item delimiter)).Stalls start ↔
      (language.taskMatcher room (.all [delimiter, item])).Stalls start ∨
        ∃ found middle,
          (language.taskMatcher room (.all [delimiter, item])).Takes start found middle ∧
            (middle.remaining < start.remaining →
              (language.taskMatcher room (.pairs item delimiter)).Stalls middle) := by
  have hmany : ∀ place, (language.taskMatcher room (.pairs item delimiter)).Stalls place ↔
      Stalls (many (matchPair (language.taskMatcher room (.shape delimiter))
        (language.taskMatcher room (.shape item)))) place := by
    intro place
    refine stalls_bind.trans ⟨?_, Or.inl⟩
    rintro (h | ⟨_, _, _, h⟩)
    · exact h
    · exact absurd h stalls_pure
  rw [hmany, stalls_many]
  simp only [hmany]
  simp only [taskMatcher, takes_matchAll_pair, stalls_matchAll_pair]

/-- A repetition is an item and pairs. -/
theorem takes_items :
    (language.taskMatcher room (.items item delimiter false)).Takes start trees stop ↔
      ∃ found middle more, (language.taskMatcher room (.shape item)).Takes start found middle ∧
        (language.taskMatcher room (.pairs item delimiter)).Takes middle more stop ∧
        trees = found ++ more := by
  constructor
  · intro h
    obtain ⟨found, middle, hfound, h⟩ := takes_bind.mp h
    obtain ⟨pairs, _, hpairs, h⟩ := takes_bind.mp h
    obtain ⟨rfl, rfl⟩ := takes_pure.mp h
    refine ⟨found, middle, pairs.flatten, hfound, ?_, rfl⟩
    exact takes_bind.mpr ⟨pairs, _, hpairs, takes_pure.mpr ⟨rfl, rfl⟩⟩
  · rintro ⟨found, middle, more, hfound, h, rfl⟩
    obtain ⟨pairs, _, hpairs, h⟩ := takes_bind.mp h
    obtain ⟨rfl, rfl⟩ := takes_pure.mp h
    exact takes_bind.mpr ⟨found, middle, hfound,
      takes_bind.mpr ⟨pairs, _, hpairs, takes_pure.mpr ⟨rfl, rfl⟩⟩⟩

/-- A row of items fails exactly where its first item does. -/
theorem fails_items :
    (language.taskMatcher room (.items item delimiter false)).Fails start ↔
      (language.taskMatcher room (.shape item)).Fails start := by
  refine fails_bind.trans ⟨?_, Or.inl⟩
  rintro (h | ⟨_, _, _, h⟩)
  · exact h
  · rcases fails_bind.mp h with h | ⟨_, _, _, h⟩
    · exact absurd h fails_many
    · exact absurd h fails_pure

/-- A row of items stalls at its first item, or at the pairs behind it. -/
theorem stalls_items :
    (language.taskMatcher room (.items item delimiter false)).Stalls start ↔
      (language.taskMatcher room (.shape item)).Stalls start ∨
        ∃ found middle, (language.taskMatcher room (.shape item)).Takes start found middle ∧
          (language.taskMatcher room (.pairs item delimiter)).Stalls middle := by
  refine stalls_bind.trans (or_congr Iff.rfl ?_)
  refine exists_congr fun found => exists_congr fun middle => and_congr Iff.rfl ?_
  refine stalls_bind.trans (Iff.trans ?_ stalls_bind.symm)
  simp only [stalls_pure, and_false, exists_false]
  exact Iff.rfl

/-- After a repetition, one more delimiter may be taken. -/
theorem takes_items_trailing :
    (language.taskMatcher room (.items item delimiter true)).Takes start trees stop ↔
      ∃ found middle,
        (language.taskMatcher room (.items item delimiter false)).Takes start found middle ∧
          ((∃ last, (language.taskMatcher room (.shape delimiter)).Takes middle last stop ∧
              trees = found ++ last) ∨
            (language.taskMatcher room (.shape delimiter)).Fails middle ∧ stop = middle ∧
              trees = found) := by
  simp only [taskMatcher, matchTrailing, if_true, Bool.false_eq_true, if_false, takes_bind,
    takes_optional, takes_pure]
  constructor
  · rintro ⟨found, middle, hfound, _, _, ⟨last, rfl, hlast⟩ | ⟨rfl, rfl, hfails⟩, rfl, rfl⟩
    · exact ⟨found, middle, hfound, Or.inl ⟨last, hlast, rfl⟩⟩
    · exact ⟨found, _, hfound, Or.inr ⟨hfails, rfl, List.append_nil found⟩⟩
  · rintro ⟨found, middle, hfound, ⟨last, hlast, rfl⟩ | ⟨hfails, rfl, rfl⟩⟩
    · exact ⟨found, middle, hfound, some last, stop, Or.inl ⟨last, rfl, hlast⟩, rfl, rfl⟩
    · exact ⟨_, _, hfound, none, _, Or.inr ⟨rfl, rfl, hfails⟩, (List.append_nil _).symm, rfl⟩

/-- A delimiter that may stand at the end makes no row fail. -/
theorem fails_items_trailing :
    (language.taskMatcher room (.items item delimiter true)).Fails start ↔
      (language.taskMatcher room (.items item delimiter false)).Fails start := by
  simp [taskMatcher, matchTrailing]

/-- A row stalls as it would without a delimiter at its end, or at that delimiter. -/
theorem stalls_items_trailing :
    (language.taskMatcher room (.items item delimiter true)).Stalls start ↔
      (language.taskMatcher room (.items item delimiter false)).Stalls start ∨
        ∃ found middle,
          (language.taskMatcher room (.items item delimiter false)).Takes start found middle ∧
            (language.taskMatcher room (.shape delimiter)).Stalls middle := by
  simp only [taskMatcher, matchTrailing, if_true, Bool.false_eq_true, if_false, stalls_bind,
    stalls_optional, stalls_pure, and_false, exists_false, or_false]

/-- A repetition is its items, or nothing if it may be empty. -/
theorem taskMatcher_repeated {bounds : Bounds} :
    language.taskMatcher room (.shape (.repeated item bounds)) =
      matchOrNothing bounds.allowEmpty (language.taskMatcher room (.items item .empty false)) := by
  simp only [taskMatcher, matcher, matchTrailing, Bool.false_eq_true, if_false]

/-- A list with delimiters is a row of items that may be missing. -/
theorem taskMatcher_separated {bounds : Bounds} :
    language.taskMatcher room (.shape (.separated item delimiter bounds)) =
      matchOrNothing bounds.allowEmpty
        (language.taskMatcher room (.items item delimiter bounds.allowTrailing)) := by
  simp only [taskMatcher, matcher]

end Repetitions

end Language

end TypedGrammar
