import TypedGrammar.Proofs.OrderedChoice.Soundness

/-!
# Completeness of the engine

Wherever ordered choice has a verdict on a task, the matcher of the task takes the same trees to
the same place, or fails as well.  The key terms need texts for this: the engine shows the next
character as the text of an empty token.
-/

namespace TypedGrammar

/-- The outcome of a matcher is a verdict. -/
def Matcher.Gives (p : Matcher (List Tree)) (start : Cursor) : Verdict → Prop
  | .matched trees stop => p.Takes start trees stop
  | .failed => p.Fails start

namespace Language

open Matcher Shape

/-- All key terms have a text. -/
def HasKeyTexts (language : Language) : Prop :=
  ∀ term ∈ language.terms, term.kind ≠ .key ""

instance (language : Language) : Decidable language.HasKeyTexts :=
  inferInstanceAs (Decidable (∀ term ∈ language.terms, term.kind ≠ .key ""))

variable {language : Language} {room : ℕ} {task : Task} {start stop : Cursor} {verdict : Verdict}

/-! ## Terms -/

theorem HasKeyTexts.kind_ne (hkeys : language.HasKeyTexts) {index : TermIndex} {term : Term}
    (hterm : language.term? index = some term) : term.kind ≠ .key "" :=
  hkeys term (Array.mem_of_getElem? hterm)

/-- The token of a terminal has the text between its ends. -/
theorem takes_token_between (hkeys : language.HasKeyTexts) {index : TermIndex} {term : Term}
    {token : Matcher String} {text : String} (hterm : language.term? index = some term)
    (htoken : tokenText? language.lexicon term.kind = some token)
    (h : token.Takes start text stop) : text = start.between stop := by
  have hlt : start < stop := (eager_token htoken (hkeys.kind_ne hterm)).consumes h
  rw [takes_token htoken h, Cursor.spanText_eq_between hlt]

theorem ScansTerm.gives (hkeys : language.HasKeyTexts) {index : TermIndex}
    (h : language.ScansTerm index start verdict) :
    (language.taskMatcher room (.term index)).Gives start verdict := by
  rcases language.taskMatcher_term room index with
    ⟨message, hmatcher, hscan⟩ | ⟨term, token, hterm, htoken, hmatcher⟩ |
      ⟨term, shape, hdef, hmatcher⟩
  · rw [hmatcher, h.unique (hscan start)]
    exact fails_fail
  · rw [hmatcher]
    cases h with
    | unknown hnone =>
      rw [hterm] at hnone
      cases hnone
    | undefined hterm' hkind =>
      obtain rfl := Option.some.inj (hterm.symm.trans hterm')
      rw [hkind] at htoken
      cases htoken
    | @token _ middle stop hterm' hskips hscans =>
      obtain rfl := Option.some.inj (hterm.symm.trans hterm')
      obtain ⟨token', text, htoken', htext⟩ := hscans
      obtain rfl := Option.some.inj (htoken.symm.trans htoken')
      have hbetween : text = middle.between stop := takes_token_between hkeys hterm htoken htext
      exact takes_terminal.mpr ⟨middle, text, hskips, htext, by rw [hbetween]⟩
    | @noToken _ middle hterm' hskips hnothing =>
      obtain rfl := Option.some.inj (hterm.symm.trans hterm')
      obtain ⟨token', htoken', hfails⟩ := hnothing
      obtain rfl := Option.some.inj (htoken.symm.trans htoken')
      exact fails_terminal.mpr ⟨middle, hskips, hfails⟩
  · exact absurd hdef h.not_defines

/-- The matcher of a rule is that of its shape, where there is room for it. -/
theorem Defines.taskMatcher {index : TermIndex} {term : Term} {shape : Shape}
    (h : language.Defines index term shape) :
    language.taskMatcher room (.term index) =
      match room with
      | 0 => fail nestingMessage
      | room + 1 =>
        andThen (language.taskMatcher room (.shape shape)) fun children =>
          succeed (ruleTrees index term children) := by
  rcases language.taskMatcher_term room index with
    ⟨message, _, hscan⟩ | ⟨term', token, hterm, htoken, _⟩ | ⟨term', shape', hdef, hmatcher⟩
  · exact absurd h (hscan (Cursor.start [])).not_defines
  · obtain rfl := Option.some.inj (hterm.symm.trans h.1)
    rw [h.2] at htoken
    cases htoken
  · obtain ⟨rfl, rfl⟩ := hdef.unique h
    exact hmatcher

/-! ## Tasks -/

theorem gives_matchOrNothing {allowed : Bool} {p : Matcher (List Tree)}
    (h : p.Gives start verdict) :
    (matchOrNothing allowed p).Gives start (verdict.orNothing allowed start) := by
  cases verdict with
  | matched trees stop => exact takes_matchOrNothing.mpr (Or.inl h)
  | failed =>
    cases allowed with
    | false => exact fails_matchOrNothing.mpr ⟨h, rfl⟩
    | true => exact takes_matchOrNothing.mpr (Or.inr ⟨rfl, h, rfl, rfl⟩)

/-- **Completeness of the engine.**  A verdict of ordered choice is the outcome of the matcher with
the same room for open rules. -/
theorem Evaluates.gives (hkeys : language.HasKeyTexts) {limit : ℕ∞}
    (h : language.Evaluates limit task start verdict) (hlimit : limit = room) :
    (language.taskMatcher room task).Gives start verdict := by
  -- By induction on the evaluation: each matcher is taken apart as the rule for its task is.
  induction h generalizing room with
  | scan hscan => exact hscan.gives hkeys
  | @rule limit index term shape start verdict hdef hne _ ih =>
    subst hlimit
    rw [hdef.taskMatcher]
    -- A rule that is opened leaves room for one rule less on both sides.
    cases room with
    | zero => exact absurd Nat.cast_zero hne
    | succ below =>
      have hbelow := ih (natCast_succ_sub_one below)
      cases verdict with
      | matched children stop =>
        exact takes_andThen.mpr ⟨children, stop, hbelow, takes_succeed.mpr ⟨rfl, rfl⟩⟩
      | failed => exact fails_andThen.mpr (Or.inl hbelow)
  | refused hdef hzero =>
    rw [hlimit, Nat.cast_eq_zero] at hzero
    subst hzero
    rw [hdef.taskMatcher]
    exact fails_fail
  | empty =>
    rw [taskMatcher, matcher]
    exact takes_succeed.mpr ⟨rfl, rfl⟩
  | hint =>
    rw [taskMatcher, matcher]
    exact takes_succeed.mpr ⟨rfl, rfl⟩
  | noAlternative =>
    rw [taskMatcher, matcher, matchFirst]
    exact takes_succeed.mpr ⟨rfl, rfl⟩
  | allNil =>
    rw [taskMatcher, matchAll_nil]
    exact takes_succeed.mpr ⟨rfl, rfl⟩
  | reference _ ih =>
    rw [taskMatcher, matcher]
    exact ih hlimit
  | sequence _ ih =>
    rw [taskMatcher, matcher]
    exact ih hlimit
  | choice _ ih =>
    rw [taskMatcher, matcher]
    exact ih hlimit
  | repeated _ ih =>
    rw [taskMatcher_repeated]
    exact gives_matchOrNothing (ih hlimit)
  | separated _ ih =>
    rw [taskMatcher_separated]
    exact gives_matchOrNothing (ih hlimit)
  | allFail _ ih => exact fails_matchAll_cons.mpr (Or.inl (ih hlimit))
  | @allCons _ shape rest start middle found verdict _ _ ih ihRest =>
    cases verdict with
    | matched more stop =>
      exact takes_matchAll_cons.mpr ⟨found, middle, more, ih hlimit, ihRest hlimit, rfl⟩
    | failed => exact fails_matchAll_cons.mpr (Or.inr ⟨found, middle, ih hlimit, ihRest hlimit⟩)
  | @firstMatch _ shape others _ _ _ _ ih =>
    cases others with
    | nil =>
      rw [taskMatcher, matchFirst]
      exact ih hlimit
    | cons next others =>
      rw [taskMatcher, matchFirst_cons_cons]
      exact takes_orElse.mpr (Or.inl (ih hlimit))
  | firstFail _ ih =>
    rw [taskMatcher, matchFirst]
    exact ih hlimit
  | @firstNext _ _ _ _ _ verdict _ _ ih ihNext =>
    rw [taskMatcher, matchFirst_cons_cons]
    cases verdict with
    | matched trees stop => exact takes_orElse.mpr (Or.inr ⟨ih hlimit, ihNext hlimit⟩)
    | failed => exact fails_orElse.mpr ⟨ih hlimit, ihNext hlimit⟩
  | @itemsFail _ _ _ trailing _ _ ih =>
    cases trailing with
    | false => exact fails_items.mpr (ih hlimit)
    | true => exact fails_items_trailing.mpr (fails_items.mpr (ih hlimit))
  | items _ _ ih ihPairs =>
    exact takes_items.mpr ⟨_, _, _, ih hlimit, ihPairs hlimit, rfl⟩
  | itemsTrailing _ _ _ ih ihPairs ihLast =>
    have hitems := takes_items.mpr ⟨_, _, _, ih hlimit, ihPairs hlimit, rfl⟩
    exact takes_items_trailing.mpr ⟨_, _, hitems, Or.inl ⟨_, ihLast hlimit, rfl⟩⟩
  | itemsNoTrailing _ _ _ ih ihPairs ihLast =>
    have hitems := takes_items.mpr ⟨_, _, _, ih hlimit, ihPairs hlimit, rfl⟩
    exact takes_items_trailing.mpr ⟨_, _, hitems, Or.inr ⟨ihLast hlimit, rfl, rfl⟩⟩
  | pairsEnd _ ih => exact takes_pairs.mpr (Or.inl ⟨ih hlimit, rfl, rfl⟩)
  | @pairsNext _ item delimiter start middle stop found more hpair _ ih ihPairs =>
    have hfound := ih hlimit
    have hmore := ihPairs hlimit
    rcases hpair.le.eq_or_lt with rfl | hlt
    · -- The pair would be taken again from the same place.
      rcases takes_pairs.mp hmore with ⟨hfails, _⟩ | ⟨_, middle, _, hagain, hlt, _⟩
      · exact absurd hfails hfound.not_fails
      · obtain rfl := (hagain.unique hfound).2
        exact absurd hlt (lt_irrefl _)
    · have hlt := (Cursor.remaining_lt_iff hlt.le).mpr hlt
      exact takes_pairs.mpr (Or.inr ⟨found, middle, more, hfound, hlt, hmore, rfl⟩)

end Language

end TypedGrammar
