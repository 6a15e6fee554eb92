import TypedGrammar.Proofs.Grammar.Building
import TypedGrammar.Proofs.Matching.Shifts
import TypedGrammar.Proofs.OrderedChoice.Documents
import TypedGrammar.Proofs.Tree.Trivia

/-!
# White space before a text

White space before a text is skipped together with the trivia before the first token, whichever
rules are tried there and however often.  So a language makes the same of the text with it and
without it.

The two runs are compared step by step.  As long as no token is taken, both stay at the beginning
of their texts; from the first token on, the same characters remain in both.
-/

namespace TypedGrammar

open Matcher

/-! ## Skipping white space -/

section Skipping

variable {comments : List Comment} {start middle stop : Cursor} {blank : List Char}

/-- White space is skipped before what is skipped behind it. -/
theorem Skips.of_spans (h : Skips comments middle stop)
    (hwhite : ∀ c ∈ blank, Text.whiteSpace.contains c = true) (hspans : start.Spans middle blank) :
    Skips comments start stop := by
  induction blank generalizing start with
  | nil => rwa [← hspans.eq_of_nil]
  | cons c cs ih =>
    obtain ⟨next, hnext, hspans'⟩ := hspans.exists_next
    obtain ⟨items, hitems⟩ := ih (fun d hd => hwhite d (List.mem_cons_of_mem c hd)) hspans'
    have hc : (triviaItem comments).Takes start () next := by
      refine takes_foldl_orElse_iff.mpr (Or.inl ?_)
      refine takes_bind.mpr ⟨c, next, ?_, takes_pure.mpr ⟨rfl, rfl⟩⟩
      exact takes_satisfying.mpr ⟨hnext, hwhite c List.mem_cons_self⟩
    have hlt := Cursor.remaining_of_next? hnext
    exact ⟨() :: items, takes_many.mpr (Or.inr ⟨(), next, items, hc, hlt, hitems, rfl⟩)⟩

/-- The same is skipped further back. -/
theorem Skips.later (h : Skips comments start stop) (n : ℕ) :
    Skips comments (start.later n) (stop.later n) := by
  obtain ⟨items, hitems⟩ := h
  exact ⟨items, (closed_uniform.many (closed_uniform.triviaItem comments)).takes hitems n⟩

/-- The same is skipped further back. -/
theorem skipped_later (start stop : Cursor) (n : ℕ) :
    skipped (start.later n) (stop.later n) = skipped start stop := by
  unfold skipped
  rw [Cursor.later_between]
  by_cases h : start.index < stop.index
  · have hlater : (start.later n).index < (stop.later n).index := Nat.add_lt_add_right h n
    rw [if_pos h, if_pos hlater]
  · have hlater : ¬ (start.later n).index < (stop.later n).index :=
      fun hlt => h (Nat.lt_of_add_lt_add_right hlt)
    rw [if_neg h, if_neg hlater]

end Skipping

/-! ## Two runs -/

/-- White space stands at a place, and behind it remains what remains at another place. -/
structure LeadingBlank where
  blank : List Char
  first : Cursor
  second : Cursor
  spans : first.Spans (second.later blank.length) blank
  white : ∀ c ∈ blank, Text.whiteSpace.contains c = true

namespace LeadingBlank

variable (pair : LeadingBlank)

/-- How far two runs have come. -/
inductive Phase
  /-- Nothing is taken; the white space still remains in the first run. -/
  | before
  /-- A token is taken, and the same remains in both runs. -/
  | behind

/-- The places of the two runs. -/
def At : Phase → Cursor → Cursor → Prop
  | .before, a, b => a = pair.first ∧ b = pair.second
  | .behind, a, b => a = b.later pair.blank.length

/-- The number of bytes of the white space. -/
def size : ℕ :=
  (String.ofList pair.blank).utf8ByteSize

/-- What is taken by the two runs on the way from one phase to another: trees without tokens at
first, then those with the first token, then the same trees. -/
def Trees : Phase → Phase → List Tree → List Tree → Prop
  | .before, .before, trees, trees' => trees = trees' ∧ Tree.tokensOfAll trees' = []
  | .before, .behind, trees, trees' => Tree.Delayed pair.size trees trees'
  | .behind, .behind, trees, trees' => trees = trees'
  | .behind, .before, _, _ => False

variable {pair} {p q r : Phase} {a b a' b' : Cursor} {trees trees' more more' : List Tree}

theorem trees_nil (p : Phase) : pair.Trees p p [] [] := by
  cases p with
  | before => exact ⟨rfl, rfl⟩
  | behind => rfl

/-- What is taken from phase to phase is taken one behind the other. -/
theorem Trees.append (h : pair.Trees p q trees trees') (hmore : pair.Trees q r more more') :
    pair.Trees p r (trees ++ more) (trees' ++ more') := by
  cases p with
  | before =>
    cases q with
    | before =>
      obtain ⟨rfl, htokens⟩ := h
      cases r with
      | before =>
        obtain ⟨rfl, htokens'⟩ := hmore
        exact ⟨rfl, by rw [Tree.tokensOfAll_append, htokens, htokens', List.append_nil]⟩
      | behind => exact Tree.Delayed.prepend hmore htokens
    | behind =>
      cases r with
      | before => exact absurd hmore id
      | behind =>
        obtain rfl : more = more' := hmore
        exact Tree.Delayed.append h more
  | behind =>
    cases q with
    | before => exact absurd h id
    | behind =>
      cases r with
      | before => exact absurd hmore id
      | behind =>
        obtain rfl : trees = trees' := h
        obtain rfl : more = more' := hmore
        rfl

/-- A rule makes a node of what it takes, or is spliced. -/
theorem Trees.ruleTrees (h : pair.Trees p q trees trees') (index : TermIndex) (term : Term) :
    pair.Trees p q (Language.ruleTrees index term trees)
      (Language.ruleTrees index term trees') := by
  unfold Language.ruleTrees
  by_cases htransient : term.flags.has .transient
  · rwa [if_pos htransient, if_pos htransient]
  · rw [if_neg htransient, if_neg htransient]
    cases p with
    | before =>
      cases q with
      | before =>
        obtain ⟨rfl, htokens⟩ := h
        exact ⟨rfl, by rw [Tree.tokensOfAll, Tree.tokens, htokens]; rfl⟩
      | behind => exact Tree.Delayed.node h _
    | behind =>
      cases q with
      | before => exact absurd h id
      | behind =>
        obtain rfl : trees = trees' := h
        rfl

/-- At least as much remains in the first run. -/
theorem At.remaining_le (h : pair.At p a b) : b.remaining ≤ a.remaining := by
  cases p with
  | before =>
    obtain ⟨rfl, rfl⟩ := h
    rw [Cursor.remaining_eq, Cursor.remaining_eq, pair.spans.1, List.length_append]
    exact Nat.le_add_left _ _
  | behind =>
    obtain rfl : a = _ := h
    exact Nat.le_refl _

/-- Progress of the second run is progress of the first. -/
theorem Trees.remaining_lt (h : pair.Trees p q trees trees') (hstart : pair.At p a b)
    (hstop : pair.At q a' b') (hlt : b'.remaining < b.remaining) :
    a'.remaining < a.remaining := by
  cases q with
  | before =>
    cases p with
    | before =>
      obtain ⟨rfl, rfl⟩ := hstart
      obtain ⟨rfl, rfl⟩ := hstop
      exact absurd hlt (Nat.lt_irrefl _)
    | behind => exact absurd h id
  | behind =>
    obtain rfl : a' = _ := hstop
    exact Nat.lt_of_lt_of_le hlt hstart.remaining_le

/-- The two runs of a matcher go the same way. -/
structure Carries (pair : LeadingBlank) (m : Matcher (List Tree)) : Prop where
  takes : ∀ {p a b trees' b'}, pair.At p a b → m.Takes b trees' b' →
    ∃ q trees a', m.Takes a trees a' ∧ pair.At q a' b' ∧ pair.Trees p q trees trees'
  fails : ∀ {p a b}, pair.At p a b → m.Fails b → m.Fails a

/-! ## Terminals -/

section Terminals

variable {comments : List Comment} {middle : Cursor}

/-- What is skipped in the second run is skipped in the first, together with the white space. -/
theorem At.skips (h : pair.At p a b) (hskips : Skips comments b middle) :
    Skips comments a (middle.later pair.blank.length) := by
  have hlater := hskips.later pair.blank.length
  cases p with
  | before =>
    obtain ⟨rfl, rfl⟩ := h
    exact hlater.of_spans pair.white pair.spans
  | behind =>
    obtain rfl : a = _ := h
    exact hlater

/-- The trivia that is skipped is as long as the characters that it spans. -/
theorem extent_skipped {start stop : Cursor} {cs : List Char} (h : start.Spans stop cs) :
    Tree.extent (Tree.tokensOfAll (skipped start stop)) = (String.ofList cs).utf8ByteSize := by
  unfold skipped
  by_cases hlt : start.index < stop.index
  · rw [if_pos hlt, h.between_eq, Tree.tokensOfAll, Tree.tokens, Tree.tokensOfAll, List.append_nil,
      Tree.extent_cons, Tree.extent_nil, Nat.add_zero]
  · have hnil : cs = [] := by
      have := h.2
      exact List.length_eq_zero_iff.mp (by omega)
    rw [if_neg hlt, hnil]
    rfl

/-- Only trivia is skipped. -/
theorem trivia_skipped (start stop : Cursor) :
    ∀ token ∈ Tree.tokensOfAll (skipped start stop), token.kind = .trivia := by
  unfold skipped
  split
  · intro token htoken
    obtain rfl := List.mem_singleton.mp htoken
    rfl
  · nofun

/-- Nothing is left of what is skipped if trivia is left out. -/
theorem withoutTrivia_skipped (start stop : Cursor) :
    Tree.withoutTriviaOfAll (skipped start stop) = [] := by
  unfold skipped
  split <;> rfl

/-- The trivia before the first token is longer by the white space. -/
theorem delayed_skipped (hle : pair.second ≤ middle) (more : List Tree) :
    Tree.Delayed pair.size
      (skipped pair.first (middle.later pair.blank.length) ++ more)
      (skipped pair.second middle ++ more) := by
  obtain ⟨cs, hspans⟩ := hle
  have hextent : Tree.extent (Tree.tokensOfAll
      (skipped pair.first (middle.later pair.blank.length))) =
        (String.ofList cs).utf8ByteSize + pair.size := by
    rw [extent_skipped (pair.spans.append hspans.later), String.ofList_append,
      String.utf8ByteSize_append]
    exact Nat.add_comm _ _
  refine ⟨?_, _, _, Tree.tokensOfAll more, Tree.tokensOfAll_append _ _,
    Tree.tokensOfAll_append _ _, trivia_skipped _ _, trivia_skipped _ _, ?_⟩
  · rw [Tree.withoutTriviaOfAll_append, Tree.withoutTriviaOfAll_append, withoutTrivia_skipped,
      withoutTrivia_skipped]
  · rw [hextent, extent_skipped hspans]

/-- The trees of a place behind trivia, in both runs. -/
theorem At.trees_skipped (h : pair.At p a b) (hle : b ≤ middle) (more : List Tree) :
    pair.Trees p .behind (skipped a (middle.later pair.blank.length) ++ more)
      (skipped b middle ++ more) := by
  cases p with
  | before =>
    obtain ⟨rfl, rfl⟩ := h
    exact delayed_skipped hle more
  | behind =>
    obtain rfl : a = _ := h
    exact congrArg (· ++ more) (skipped_later b middle _)

/-- A terminal skips the white space in the first run only, and then takes the same token. -/
theorem carries_terminal {lexicon : Lexicon} {kind : TermKind} {token : Matcher String}
    (htoken : tokenText? lexicon kind = some token) (index : TermIndex) :
    pair.Carries (terminal comments index token) where
  takes {p a b trees' b'} hat h := by
    obtain ⟨middle, text, hskips, htext, rfl⟩ := takes_terminal.mp h
    refine ⟨.behind, _, b'.later pair.blank.length, ?_, rfl, hat.trees_skipped hskips.le _⟩
    exact takes_terminal.mpr ⟨_, text, hat.skips hskips,
      (closed_uniform.token htoken).takes htext _, rfl⟩
  fails hat h := by
    obtain ⟨middle, hskips, hfails⟩ := fails_terminal.mp h
    exact fails_terminal.mpr ⟨_, hat.skips hskips, (closed_uniform.token htoken).fails hfails _⟩

end Terminals

/-! ## Shapes -/

section Shapes

variable {language : Language} {room : ℕ} {shape item delimiter : Shape} {shapes : List Shape}
  {term : TermIndex → Matcher (List Tree)} {m : Matcher (List Tree)}

open TypedGrammar.Language Shape

theorem carries_nothing : pair.Carries (succeed []) where
  takes {p a b _ _} hat h := by
    obtain ⟨rfl, rfl⟩ := takes_succeed.mp h
    exact ⟨p, [], a, takes_succeed.mpr ⟨rfl, rfl⟩, hat, trees_nil p⟩
  fails _ h := absurd h fails_succeed

theorem carries_fail (message : String) : pair.Carries (fail message) where
  takes _ h := absurd h takes_fail
  fails _ _ := fails_fail

/-- What may be missing goes the same way, missing or not. -/
theorem carries_orNothing (hm : pair.Carries m) (allowed : Bool) :
    pair.Carries (matchOrNothing allowed m) where
  takes {p a b trees' b'} hat h := by
    rcases takes_matchOrNothing.mp h with h | ⟨hallowed, hfails, rfl, rfl⟩
    · obtain ⟨q, trees, a', htakes, hat', htrees⟩ := hm.takes hat h
      exact ⟨q, trees, a', takes_matchOrNothing.mpr (Or.inl htakes), hat', htrees⟩
    · refine ⟨p, [], a, takes_matchOrNothing.mpr (Or.inr ?_), hat, trees_nil p⟩
      exact ⟨hallowed, hm.fails hat hfails, rfl, rfl⟩
  fails hat h := by
    obtain ⟨hfails, hallowed⟩ := fails_matchOrNothing.mp h
    exact fails_matchOrNothing.mpr ⟨hm.fails hat hfails, hallowed⟩

/-- Shapes in a row go the same way, if each does. -/
theorem carries_all (h : ∀ shape ∈ shapes, pair.Carries (shape.matcher term)) :
    pair.Carries (matchAll term shapes) := by
  induction shapes with
  | nil =>
    rw [matchAll_nil]
    exact carries_nothing
  | cons shape rest ih =>
    have hhead := h shape List.mem_cons_self
    have hrest := ih fun s hs => h s (List.mem_cons_of_mem _ hs)
    constructor
    · intro p a b trees' b' hat h
      obtain ⟨found', middle', more', hfound, hmore, rfl⟩ := takes_matchAll_cons.mp h
      obtain ⟨q, found, middle, hfound, hatMiddle, hfoundTrees⟩ := hhead.takes hat hfound
      obtain ⟨r, more, a', hmore, hat', hmoreTrees⟩ := hrest.takes hatMiddle hmore
      exact ⟨r, found ++ more, a',
        takes_matchAll_cons.mpr ⟨found, middle, more, hfound, hmore, rfl⟩, hat',
        hfoundTrees.append hmoreTrees⟩
    · intro p a b hat h
      rcases fails_matchAll_cons.mp h with h | ⟨found', middle', hfound, h⟩
      · exact fails_matchAll_cons.mpr (Or.inl (hhead.fails hat h))
      · obtain ⟨q, found, middle, hfound, hatMiddle, _⟩ := hhead.takes hat hfound
        exact fails_matchAll_cons.mpr (Or.inr ⟨found, middle, hfound, hrest.fails hatMiddle h⟩)

/-- A choice goes the same way, if each of its alternatives does. -/
theorem carries_first (h : ∀ alternative ∈ shapes, pair.Carries (alternative.matcher term)) :
    pair.Carries (matchFirst term shapes) := by
  induction shapes with
  | nil =>
    rw [matchFirst]
    exact carries_nothing
  | cons shape others ih =>
    have hshape := h shape List.mem_cons_self
    have hothers := ih fun s hs => h s (List.mem_cons_of_mem _ hs)
    cases others with
    | nil =>
      rw [matchFirst]
      exact hshape
    | cons next others =>
      rw [matchFirst_cons_cons]
      constructor
      · intro p a b trees' b' hat h
        rcases takes_orElse.mp h with h | ⟨hfails, h⟩
        · obtain ⟨q, trees, a', htakes, hat', htrees⟩ := hshape.takes hat h
          exact ⟨q, trees, a', takes_orElse.mpr (Or.inl htakes), hat', htrees⟩
        · obtain ⟨q, trees, a', htakes, hat', htrees⟩ := hothers.takes hat h
          exact ⟨q, trees, a', takes_orElse.mpr (Or.inr ⟨hshape.fails hat hfails, htakes⟩), hat',
            htrees⟩
      · intro p a b hat h
        obtain ⟨hfails, h⟩ := fails_orElse.mp h
        exact fails_orElse.mpr ⟨hshape.fails hat hfails, hothers.fails hat h⟩

/-- Pairs of a delimiter and an item go the same way, one behind the other. -/
theorem carries_pairs (hpair : pair.Carries (language.taskMatcher room (.all [delimiter, item]))) :
    pair.Carries (language.taskMatcher room (.pairs item delimiter)) where
  takes {p a b trees' b'} hat h := by
    induction hn : b.remaining using Nat.strongRecOn generalizing p a b trees' with
    | ind n ih =>
      rcases takes_pairs.mp h with
        ⟨hfails, rfl, rfl⟩ | ⟨found', middle', more', hfound, hlt, hmore, rfl⟩
      · exact ⟨p, [], a, takes_pairs.mpr (Or.inl ⟨hpair.fails hat hfails, rfl, rfl⟩), hat,
          trees_nil p⟩
      · obtain ⟨q, found, middle, hfound, hatMiddle, hfoundTrees⟩ := hpair.takes hat hfound
        obtain ⟨r, more, a', hmore, hat', hmoreTrees⟩ := ih _ (hn ▸ hlt) hatMiddle hmore rfl
        have hlt' := hfoundTrees.remaining_lt hat hatMiddle hlt
        exact ⟨r, found ++ more, a',
          takes_pairs.mpr (Or.inr ⟨found, middle, more, hfound, hlt', hmore, rfl⟩), hat',
          hfoundTrees.append hmoreTrees⟩
  fails _ h := absurd h not_fails_pairs

/-- An item and pairs, without a trailing delimiter. -/
theorem carries_items_plain (hitem : pair.Carries (language.taskMatcher room (.shape item)))
    (hpairs : pair.Carries (language.taskMatcher room (.pairs item delimiter))) :
    pair.Carries (language.taskMatcher room (.items item delimiter false)) where
  takes hat h := by
    obtain ⟨found', middle', more', hfound, hmore, rfl⟩ := takes_items.mp h
    obtain ⟨q, found, middle, hfound, hatMiddle, hfoundTrees⟩ := hitem.takes hat hfound
    obtain ⟨r, more, a', hmore, hat', hmoreTrees⟩ := hpairs.takes hatMiddle hmore
    exact ⟨r, found ++ more, a', takes_items.mpr ⟨found, middle, more, hfound, hmore, rfl⟩, hat',
      hfoundTrees.append hmoreTrees⟩
  fails hat h := fails_items.mpr (hitem.fails hat (fails_items.mp h))

/-- A row of items goes the same way, with or without a delimiter at its end. -/
theorem carries_items (hitem : pair.Carries (language.taskMatcher room (.shape item)))
    (hdelimiter : pair.Carries (language.taskMatcher room (.shape delimiter))) (trailing : Bool) :
    pair.Carries (language.taskMatcher room (.items item delimiter trailing)) := by
  have hpairs : pair.Carries (language.taskMatcher room (.pairs item delimiter)) := by
    refine carries_pairs (carries_all fun shape hshape => ?_)
    simp only [List.mem_cons, List.not_mem_nil, or_false] at hshape
    rcases hshape with rfl | rfl
    · exact hdelimiter
    · exact hitem
  have hplain := carries_items_plain hitem hpairs
  cases trailing with
  | false => exact hplain
  | true =>
    constructor
    · intro p a b trees' b' hat h
      obtain ⟨found', middle', hfound', h⟩ := takes_items_trailing.mp h
      obtain ⟨q, found, middle, hfound, hatMiddle, hfoundTrees⟩ := hplain.takes hat hfound'
      rcases h with ⟨last', hlast, rfl⟩ | ⟨hfails, rfl, rfl⟩
      · obtain ⟨r, last, a', hlast, hat', hlastTrees⟩ := hdelimiter.takes hatMiddle hlast
        exact ⟨r, found ++ last, a',
          takes_items_trailing.mpr ⟨found, middle, hfound, Or.inl ⟨last, hlast, rfl⟩⟩, hat',
          hfoundTrees.append hlastTrees⟩
      · have hfails := hdelimiter.fails hatMiddle hfails
        exact ⟨q, found, middle,
          takes_items_trailing.mpr ⟨found, middle, hfound, Or.inr ⟨hfails, rfl, rfl⟩⟩, hatMiddle,
          hfoundTrees⟩
    · intro p a b hat h
      exact fails_items_trailing.mpr (hplain.fails hat (fails_items_trailing.mp h))

/-- The runs of a shape go the same way if those of the terms in it do. -/
theorem carries_shape
    (hterm : ∀ index, pair.Carries (language.taskMatcher room (.term index))) (shape : Shape) :
    pair.Carries (language.taskMatcher room (.shape shape)) := by
  induction shape with
  | empty =>
    rw [taskMatcher, matcher]
    exact carries_nothing
  | hint hint =>
    rw [taskMatcher, matcher]
    exact carries_nothing
  | term index =>
    rw [taskMatcher, matcher]
    exact hterm index
  | sequence items ih =>
    rw [taskMatcher, matcher]
    exact carries_all ih
  | choice alternatives ih =>
    rw [taskMatcher, matcher]
    exact carries_first ih
  | repeated item bounds ih =>
    rw [taskMatcher_repeated]
    refine carries_orNothing (carries_items ih ?_ false) _
    rw [taskMatcher, matcher]
    exact carries_nothing
  | separated item delimiter bounds ihItem ihDelimiter =>
    rw [taskMatcher_separated]
    exact carries_orNothing (carries_items ihItem ihDelimiter _) _

/-- **Two runs of a term.**  With white space before a text and without it, a term goes the same
way. -/
theorem carries_term (language : Language) (room : ℕ) (index : TermIndex) :
    pair.Carries (language.taskMatcher room (.term index)) := by
  -- Each rule that is opened leaves less room.
  induction room generalizing index with
  | zero =>
    rcases language.taskMatcher_term 0 index with
      ⟨message, hmatcher, _⟩ | ⟨term, token, _, htoken, hmatcher⟩ | ⟨term, shape, _, hmatcher⟩
    · rw [hmatcher]
      exact carries_fail message
    · rw [hmatcher]
      exact carries_terminal htoken index
    · rw [hmatcher]
      exact carries_fail _
  | succ room ih =>
    rcases language.taskMatcher_term (room + 1) index with
      ⟨message, hmatcher, _⟩ | ⟨term, token, _, htoken, hmatcher⟩ | ⟨term, shape, _, hmatcher⟩
    · rw [hmatcher]
      exact carries_fail message
    · rw [hmatcher]
      exact carries_terminal htoken index
    · have hshape := carries_shape ih shape
      rw [hmatcher]
      constructor
      · intro p a b trees' b' hat h
        obtain ⟨children', _, hchildren, h⟩ := takes_andThen.mp h
        obtain ⟨rfl, rfl⟩ := takes_succeed.mp h
        obtain ⟨q, children, a', hchildren, hat', htrees⟩ := hshape.takes hat hchildren
        exact ⟨q, _, a', takes_andThen.mpr ⟨children, a', hchildren, takes_succeed.mpr ⟨rfl, rfl⟩⟩,
          hat', htrees.ruleTrees index term⟩
      · intro p a b hat h
        rcases fails_andThen.mp h with h | ⟨_, _, _, h⟩
        · exact fails_andThen.mpr (Or.inl (hshape.fails hat h))
        · exact absurd h fails_succeed

end Shapes

end LeadingBlank

/-! ## Documents -/

namespace Language

variable {language : Language} {tree' : Tree} {stop' : Cursor}

/-- A document that is matched is matched behind white space, and its tokens stand further back. -/
theorem takes_matchDocument_of_blank (pair : LeadingBlank)
    (h : language.matchDocument.Takes pair.second tree' stop') :
    ∃ trees trees' stop, tree' = .node .document trees' ∧
      language.matchDocument.Takes pair.first (.node .document trees) stop ∧
      Tree.Delayed pair.size trees trees' := by
  obtain ⟨children', middle', hchildren', hskips, hrest, rfl⟩ := takes_matchDocument.mp h
  have hat : pair.At .before pair.first pair.second := ⟨rfl, rfl⟩
  obtain ⟨q, children, middle, hchildren, hatMiddle, htrees⟩ :=
    (pair.carries_term language _ _).takes hat hchildren'
  have hall := htrees.append (hatMiddle.trees_skipped hskips.le [])
  rw [List.append_nil, List.append_nil] at hall
  refine ⟨_, _, stop'.later pair.blank.length, rfl, ?_, hall⟩
  exact takes_matchDocument.mpr
    ⟨children, middle, hchildren, hatMiddle.skips hskips, hrest, rfl⟩

/-- A document that fails also fails behind white space. -/
theorem fails_matchDocument_of_blank (pair : LeadingBlank)
    (h : language.matchDocument.Fails pair.second) :
    language.matchDocument.Fails pair.first := by
  have hroot := pair.carries_term language nestingLimit language.root
  have hat : pair.At .before pair.first pair.second := ⟨rfl, rfl⟩
  rcases fails_matchDocument.mp h with h | ⟨children', middle', after', hchildren, hskips, hrest⟩
  · exact fails_matchDocument.mpr (Or.inl (hroot.fails hat h))
  · obtain ⟨q, children, middle, hchildren, hatMiddle, _⟩ := hroot.takes hat hchildren
    exact fails_matchDocument.mpr (Or.inr
      ⟨children, middle, _, hchildren, hatMiddle.skips hskips, hrest⟩)

/-- The beginnings of a text with white space before it and of the text itself. -/
def leadingBlank (blank text : String)
    (hwhite : ∀ c ∈ blank.toList, Text.whiteSpace.contains c = true) : LeadingBlank where
  blank := blank.toList
  first := Cursor.start (blank ++ text).toList
  second := Cursor.start text.toList
  spans := ⟨String.toList_append, rfl⟩
  white := hwhite

/-- **White space before a text.**  With white space before it, a text is accepted exactly if it is
accepted without it; the two trees are equal without their trivia, and the other tokens stand
further back by the length of the white space. -/
theorem parse?_blank_append {blank text : String} {parse : Parse}
    (hwhite : ∀ c ∈ blank.toList, Text.whiteSpace.contains c = true)
    (h : language.parse? text = some parse) :
    ∃ parse', language.parse? (blank ++ text) = some parse' ∧
      (parse'.tree.isSome ↔ parse.tree.isSome) ∧
      ∀ tree ∈ parse.tree, ∀ tree' ∈ parse'.tree,
        tree'.withoutTrivia = tree.withoutTrivia ∧
        Tree.standing 0 tree'.tokens = (Tree.standing 0 tree.tokens).map fun place =>
          (place.1 + blank.utf8ByteSize, place.2) := by
  let pair := leadingBlank blank text hwhite
  rcases parse?_eq_some_iff.mp h with ⟨tree, stop, htakes, rfl⟩ | ⟨failure, hfailure, rfl⟩
  · obtain ⟨trees', trees, stop', rfl, htakes', hdelayed⟩ :=
      takes_matchDocument_of_blank pair htakes
    refine ⟨⟨some (.node .document trees'), []⟩,
      parse?_eq_some_iff.mpr (Or.inl ⟨_, stop', htakes', rfl⟩), Iff.rfl, ?_⟩
    intro tree htree tree' htree'
    obtain rfl := Option.some.inj htree
    obtain rfl := Option.some.inj htree'
    have hsize : pair.size = blank.utf8ByteSize := congrArg _ String.ofList_toList
    rw [← hsize]
    exact ⟨congrArg (Tree.node .document) hdelayed.withoutTrivia_eq, hdelayed.standing_eq 0⟩
  · have hfails : language.matchDocument.Fails pair.second := ⟨failure, hfailure⟩
    obtain ⟨failure', hfailure'⟩ := fails_matchDocument_of_blank pair hfails
    exact ⟨_, parse?_eq_some_iff.mpr (Or.inr ⟨failure', hfailure', rfl⟩), Iff.rfl, nofun⟩

/-- An empty line and a blank before two items. -/
theorem parse?_blank_append_twoItems :
    (∀ c ∈ "\n ".toList, Text.whiteSpace.contains c = true) ∧
      SignedSums.built.language.parse? "x+x" = some ⟨some SignedSums.document, []⟩ ∧
      ∃ parse', SignedSums.built.language.parse? ("\n " ++ "x+x") = some parse' ∧
        (parse'.tree.isSome ↔ (some SignedSums.document).isSome) ∧
        ∀ tree ∈ some SignedSums.document, ∀ tree' ∈ parse'.tree,
          tree'.withoutTrivia = tree.withoutTrivia ∧
          Tree.standing 0 tree'.tokens = (Tree.standing 0 tree.tokens).map fun place =>
            (place.1 + "\n ".utf8ByteSize, place.2) := by
  have hwhite : ∀ c ∈ "\n ".toList, Text.whiteSpace.contains c = true :=
    List.all_eq_true.mp (by decide)
  exact ⟨hwhite, SignedSums.parse?_eq, parse?_blank_append hwhite SignedSums.parse?_eq⟩

end Language

end TypedGrammar
