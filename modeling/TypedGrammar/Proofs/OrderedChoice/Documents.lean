import TypedGrammar.Proofs.OrderedChoice.Completeness

/-!
# Parsing documents

What a language makes of a whole text: if all key terms have a text, it is what ordered choice
reads with room for as many open rules as the nesting limit says; and if there is no result, a
repetition of nothing is attempted.
-/

namespace TypedGrammar

namespace Language

open Matcher

variable {language : Language} {text : String} {start stop : Cursor} {parse : Parse}
  {result : Option Tree}

/-! ## The matcher of documents -/

/-- A document is the root, trivia, and the end of the text. -/
theorem takes_matchDocument {tree : Tree} :
    language.matchDocument.Takes start tree stop ↔
      ∃ trees middle,
        (language.taskMatcher nestingLimit (.term language.root)).Takes start trees middle ∧
          Skips language.comments middle stop ∧ stop.rest = [] ∧
          tree = .node .document (trees ++ skipped middle stop) := by
  constructor
  · intro h
    obtain ⟨trees, middle, htrees, h⟩ := takes_andThen.mp h
    obtain ⟨found, after, hfound, h⟩ := takes_bind.mp h
    obtain ⟨_, after', hend, h⟩ := takes_bind.mp h
    obtain ⟨rfl, rfl⟩ := takes_pure.mp h
    obtain ⟨hrest, rfl⟩ := takes_atEnd.mp hend
    obtain ⟨hskips, hskipped⟩ := skips_of_takes_trivia hfound
    exact ⟨trees, middle, htrees, hskips, hrest, by rw [hskipped]⟩
  · rintro ⟨trees, middle, htrees, hskips, hrest, rfl⟩
    obtain ⟨found, hfound⟩ := takes_trivia_of_skips hskips
    rw [← (skips_of_takes_trivia hfound).2]
    have hend : atEnd.Takes stop () stop := takes_atEnd.mpr ⟨hrest, rfl⟩
    exact takes_andThen.mpr ⟨trees, middle, htrees, takes_bind.mpr ⟨found, stop, hfound,
      takes_bind.mpr ⟨(), stop, hend, takes_pure.mpr ⟨rfl, rfl⟩⟩⟩⟩

theorem fails_matchDocument :
    language.matchDocument.Fails start ↔
      (language.taskMatcher nestingLimit (.term language.root)).Fails start ∨
        ∃ trees middle after,
          (language.taskMatcher nestingLimit (.term language.root)).Takes start trees middle ∧
            Skips language.comments middle after ∧ after.rest ≠ [] := by
  constructor
  · intro h
    rcases fails_andThen.mp h with h | ⟨trees, middle, htrees, h⟩
    · exact Or.inl h
    · rcases fails_bind.mp h with h | ⟨found, after, hfound, h⟩
      · exact absurd h not_fails_trivia
      · rcases fails_bind.mp h with h | ⟨_, _, _, h⟩
        · have hskips := (skips_of_takes_trivia hfound).1
          exact Or.inr ⟨trees, middle, after, htrees, hskips, fails_atEnd.mp h⟩
        · exact absurd h fails_pure
  · rintro (h | ⟨trees, middle, after, htrees, hskips, hrest⟩)
    · exact fails_andThen.mpr (Or.inl h)
    · obtain ⟨found, hfound⟩ := takes_trivia_of_skips hskips
      exact fails_andThen.mpr (Or.inr ⟨trees, middle, htrees, fails_bind.mpr (Or.inr
        ⟨found, after, hfound, fails_bind.mpr (Or.inl (fails_atEnd.mpr hrest))⟩)⟩)

theorem stalls_matchDocument :
    language.matchDocument.Stalls start ↔
      (language.taskMatcher nestingLimit (.term language.root)).Stalls start := by
  refine stalls_andThen.trans ⟨?_, Or.inl⟩
  rintro (h | ⟨trees, middle, _, h⟩)
  · exact h
  · rcases stalls_bind.mp h with h | ⟨_, _, _, h⟩
    · exact absurd h (steady_trivia language.comments).settles
    · rcases stalls_bind.mp h with h | ⟨_, _, _, h⟩
      · exact absurd h stalls_atEnd
      · exact absurd h stalls_pure

/-! ## Parses -/

/-- The outcomes of the matcher of documents are the parses of texts. -/
theorem parse?_eq_some_iff :
    language.parse? text = some parse ↔
      (∃ tree stop, language.matchDocument.Takes (Cursor.start text.toList) tree stop ∧
          parse = ⟨some tree, []⟩) ∨
        ∃ failure, language.matchDocument (Cursor.start text.toList) = .failed failure ∧
          parse = ⟨none, [failure.toTextError text.toList]⟩ := by
  unfold parse? Takes
  cases language.matchDocument (Cursor.start text.toList) <;> simp [eq_comm]

theorem parse?_eq_none_iff :
    language.parse? text = none ↔
      language.matchDocument.Stalls (Cursor.start text.toList) := by
  unfold parse? Stalls
  cases language.matchDocument (Cursor.start text.toList) <;> simp

/-- There is either a tree or an error. -/
theorem errors_eq_nil_iff (h : language.parse? text = some parse) :
    parse.errors = [] ↔ parse.tree.isSome := by
  rcases parse?_eq_some_iff.mp h with ⟨tree, stop, _, rfl⟩ | ⟨failure, _, rfl⟩ <;> simp

/-- What ordered choice reads within the nesting limit is the tree of the parse. -/
theorem Reads.parse? (hkeys : language.HasKeyTexts)
    (h : language.Reads nestingLimit text result) :
    ∃ parse, language.parse? text = some parse ∧ parse.tree = result := by
  have hfailed : language.matchDocument.Fails (Cursor.start text.toList) →
      ∃ parse, language.parse? text = some parse ∧ parse.tree = none := by
    rintro ⟨failure, hfailure⟩
    exact ⟨_, parse?_eq_some_iff.mpr (Or.inr ⟨failure, hfailure, rfl⟩), rfl⟩
  cases h with
  | accepted hroot hskips hrest =>
    have htakes := takes_matchDocument.mpr ⟨_, _, hroot.gives hkeys rfl, hskips, hrest, rfl⟩
    exact ⟨_, parse?_eq_some_iff.mpr (Or.inl ⟨_, _, htakes, rfl⟩), rfl⟩
  | leftOver hroot hskips hrest =>
    exact hfailed (fails_matchDocument.mpr
      (Or.inr ⟨_, _, _, hroot.gives hkeys rfl, hskips, hrest⟩))
  | rejected hroot => exact hfailed (fails_matchDocument.mpr (Or.inl (hroot.gives hkeys rfl)))

/-- A parse is read by ordered choice within the nesting limit. -/
theorem reads_of_parse? (hkeys : language.HasKeyTexts) (h : language.parse? text = some parse) :
    language.Reads nestingLimit text parse.tree := by
  have hroot := language.explains nestingLimit (.term language.root)
  have hreads : ∃ result, language.Reads nestingLimit text result := by
    rcases parse?_eq_some_iff.mp h with ⟨tree, stop, htakes, _⟩ | ⟨failure, hfailure, _⟩
    · obtain ⟨trees, middle, htrees, hskips, hrest, _⟩ := takes_matchDocument.mp htakes
      obtain ⟨trees', heval⟩ := hroot.takes htrees
      exact ⟨_, .accepted heval hskips hrest⟩
    · rcases fails_matchDocument.mp ⟨failure, hfailure⟩ with
        hfails | ⟨trees, middle, after, htrees, hskips, hrest⟩
      · exact ⟨_, .rejected (hroot.fails hfails)⟩
      · obtain ⟨trees', heval⟩ := hroot.takes htrees
        exact ⟨_, .leftOver heval hskips hrest⟩
  obtain ⟨result, hresult⟩ := hreads
  obtain ⟨parse', hparse', rfl⟩ := hresult.parse? hkeys
  obtain rfl := Option.some.inj (h.symm.trans hparse')
  exact hresult

/-- Without a result, a repetition of nothing is attempted. -/
theorem stuck_of_parse?_eq_none (h : language.parse? text = none) :
    language.Stuck nestingLimit (.term language.root) (Cursor.start text.toList) :=
  (language.explains nestingLimit (.term language.root)).stalls
    (stalls_matchDocument.mp (parse?_eq_none_iff.mp h))

end Language

end TypedGrammar
