import TypedGrammar.Proofs.Grammar.Parsing
import TypedGrammar.Proofs.Matching.Failures
import TypedGrammar.Proofs.Source.Lines

/-!
# Refused texts

A text has a tree or it is refused with one error, never both.  The error is about a piece of the
text that begins and ends between characters, and a grammar reports it at the line and column where
the piece begins, whatever the threshold.
-/

namespace TypedGrammar

/-- The location behind a beginning of a text, by counting: as many line feeds stand before it as
its line says, as many bytes behind the last of them as its column says. -/
def Location.behind (before source : String) : Location where
  line := before.toList.count '\n'
  column := String.utf8Len (LineTable.lastLine before.toList)
  offset := before.utf8ByteSize
  source := source

theorem Location.resolve_ofText (before after source : String) :
    resolve (.ofText (before ++ after)) before.utf8ByteSize source = behind before source := by
  rw [resolve, LineTable.position_ofText]
  rfl

/-- An error about what is found in a text behind what stands before. -/
structure TextError.IsAbout (e : TextError) (before found : String) : Prop where
  start_eq : e.start = before.utf8ByteSize
  stop_eq : e.stop = (before ++ found).utf8ByteSize

namespace TextError.IsAbout

variable {e : TextError} {before found : String}

theorem start_le_stop (h : e.IsAbout before found) : e.start ≤ e.stop := by
  rw [h.start_eq, h.stop_eq, String.utf8ByteSize_append]
  exact Nat.le_add_right _ _

theorem stop_le (h : e.IsAbout before found) (after : String) :
    e.stop ≤ (before ++ found ++ after).utf8ByteSize := by
  have happend : (before ++ found ++ after).utf8ByteSize =
      (before ++ found).utf8ByteSize + after.utf8ByteSize := String.utf8ByteSize_append
  rw [h.stop_eq, happend]
  exact Nat.le_add_right _ _

end TextError.IsAbout

theorem byteOffset_length (before after : List Char) :
    byteOffset (before ++ after) before.length = (String.ofList before).utf8ByteSize := by
  unfold byteOffset
  rw [List.take_left, ← String.utf8Len_toList, String.toList_ofList]
  induction before with
  | nil => rfl
  | cons c before ih =>
    rw [List.foldr_cons, ih, String.utf8Len_cons, Nat.add_comm]

/-- A span of characters of a text is shown as a range of bytes that begins and ends between
characters. -/
theorem Failure.toTextError_isAbout {failure : Failure} {text : String}
    (hspan : failure.start ≤ failure.stop) (hstop : failure.stop ≤ text.toList.length) :
    ∃ before found after, text = before ++ found ++ after ∧
      (failure.toTextError text.toList).IsAbout before found := by
  -- The text is cut at the start and at the end of the failure.
  let cs := text.toList
  let before := cs.take failure.start
  let found := (cs.take failure.stop).drop failure.start
  let after := cs.drop failure.stop
  have hfound : before ++ found = cs.take failure.stop := by
    have htake : before = (cs.take failure.stop).take failure.start := by
      rw [List.take_take, Nat.min_eq_left hspan]
    rw [htake]
    exact List.take_append_drop _ _
  have hall : before ++ found ++ after = cs := by
    rw [hfound]
    exact List.take_append_drop _ _
  have hstart : failure.start = before.length := by
    rw [List.length_take]
    exact (Nat.min_eq_left (hspan.trans hstop)).symm
  have hlength : failure.stop = (before ++ found).length := by
    rw [hfound, List.length_take]
    exact (Nat.min_eq_left hstop).symm
  have hfirst : byteOffset cs failure.start = (String.ofList before).utf8ByteSize := by
    rw [← hall, List.append_assoc, hstart]
    exact byteOffset_length before _
  have hlast : byteOffset cs failure.stop = (String.ofList (before ++ found)).utf8ByteSize := by
    rw [← hall, hlength]
    exact byteOffset_length _ after
  refine ⟨String.ofList before, String.ofList found, String.ofList after, ?_, hfirst, ?_⟩
  · rw [← String.ofList_append, ← String.ofList_append, hall, String.ofList_toList]
  · show max (byteOffset cs failure.start) (byteOffset cs failure.stop) = _
    rw [hfirst, hlast, ← String.ofList_append]
    apply Nat.max_eq_right
    rw [String.ofList_append, String.utf8ByteSize_append]
    exact Nat.le_add_right _ _

/-- A text that is parsed has a tree and no errors, or no tree and one error about a piece of it. -/
theorem Language.tree_or_error {language : Language} {text : String} {parse : Parse}
    (h : language.parse? text = some parse) :
    (∃ tree, parse = ⟨some tree, []⟩) ∨
      ∃ e before found after, parse = ⟨none, [e]⟩ ∧ text = before ++ found ++ after ∧
        e.IsAbout before found := by
  rcases parse?_eq_some_iff.mp h with ⟨tree, stop, _, rfl⟩ | ⟨failure, hfailure, rfl⟩
  · exact Or.inl ⟨tree, rfl⟩
  · obtain ⟨hspan, hstop⟩ := failure_bounds hfailure
    obtain ⟨before, found, after, htext, habout⟩ := Failure.toTextError_isAbout hspan hstop
    exact Or.inr ⟨_, before, found, after, rfl, htext, habout⟩

namespace Grammar

variable {grammar : Grammar} {built : BuiltGrammar} {text source : String} {parse : Parse}
  {e : TextError}

/-- A text without a tree is refused where its error is, whatever the threshold. -/
theorem parse_eq_error (hbuilt : grammar.built = some built)
    (h : built.language.parse? text = some ⟨none, [e]⟩) (threshold : Severity) :
    grammar.parse text source threshold =
      .error (.parse (.resolve (.ofText text) e.start source)
        [⟨.error, e.message, some (.resolve (.ofText text) e.start source)⟩]) := by
  have huse : grammar.use = .ok built := by
    rw [use, hbuilt]
  unfold Grammar.parse
  rw [huse, ok_bind]
  simp only [h]
  rfl

/-- **Outcomes of parsing.**  A text has either a tree or one error, about a piece of the text that
begins and ends between characters.  A built grammar treats the text in the same way under every
threshold; if the text is refused, then at the line and column where the piece begins. -/
theorem tree_or_error_and_parse (h : built.language.parse? text = some parse) :
    ((∃ tree, parse = ⟨some tree, []⟩) ∨
      ∃ e before found after, parse = ⟨none, [e]⟩ ∧ text = before ++ found ++ after ∧
        e.start = before.utf8ByteSize ∧ e.stop = (before ++ found).utf8ByteSize ∧
        e.start ≤ e.stop ∧ e.stop ≤ text.utf8ByteSize) ∧
      ∀ grammar : Grammar, grammar.built = some built → ∀ source,
        (∀ threshold other,
          grammar.parse text source threshold = grammar.parse text source other) ∧
        ∀ e ∈ parse.errors, ∃ before after, text = before ++ after ∧
          e.start = before.utf8ByteSize ∧
          ∀ threshold, grammar.parse text source threshold =
            .error (.parse (.behind before source)
              [⟨.error, e.message, some (.behind before source)⟩]) := by
  rcases Language.tree_or_error h with ⟨tree, rfl⟩ | ⟨e, before, found, after, rfl, rfl, habout⟩
  · refine ⟨Or.inl ⟨tree, rfl⟩, fun grammar hbuilt source => ⟨fun threshold other => ?_, nofun⟩⟩
    rw [parse_eq_rootNode hbuilt h rfl, parse_eq_rootNode hbuilt h rfl]
  · constructor
    · exact Or.inr ⟨e, before, found, after, rfl, rfl, habout.start_eq, habout.stop_eq,
        habout.start_le_stop, habout.stop_le after⟩
    · intro grammar hbuilt source
      refine ⟨fun threshold other => ?_, fun e' he => ?_⟩
      · rw [parse_eq_error hbuilt h, parse_eq_error hbuilt h]
      · obtain rfl := List.mem_singleton.mp he
        refine ⟨before, found ++ after, String.append_assoc, habout.start_eq, ?_⟩
        intro threshold
        rw [parse_eq_error hbuilt h, habout.start_eq, String.append_assoc,
          Location.resolve_ofText]

end Grammar

/-! ## A letter that is not expected -/

namespace SignedSums

/-- Behind an item, the text ends or goes on with the operator. -/
def unexpectedLetter : Failure where
  position := 2
  start := 2
  stop := 3
  reason := .unexpected
  expected := [none, some '+']
  found := some 'é'

/-- Besides the lexicon, only the terms matter for the failure of a text. -/
theorem matchDocument_of_lexicon {language : Language} (keyTerms : KeyTermTable)
    (h : language = ⟨"Sums", entries.map Entry.toTerm, keyTerms, sumIndex, []⟩)
    (hlexicon : language.lexicon = ⟨["+"], [], []⟩) :
    language.matchDocument (Cursor.start "x\né".toList) = .failed unexpectedLetter := by
  rw [Language.matchDocument]
  simp only [hlexicon]
  subst h
  clear hlexicon
  with_unfolding_all rfl

theorem parse?_unexpectedLetter :
    built.language.parse? "x\né" = some ⟨none, [unexpectedLetter.toTextError "x\né".toList]⟩ :=
  Language.parse?_eq_some_iff.mpr
    (Or.inr ⟨_, matchDocument_of_lexicon draft.keyTerms rfl lexicon_eq, rfl⟩)

end SignedSums

/-- A letter of two bytes that is not expected is found where it stands. -/
theorem Grammar.tree_or_error_and_parse_unexpectedLetter :
    let e := SignedSums.unexpectedLetter.toTextError "x\né".toList
    SignedSums.built.language.parse? "x\né" = some ⟨none, [e]⟩ ∧ e.start = 2 ∧ e.stop = 4 ∧
      ∃ before after, "x\né" = before ++ after ∧ e.start = before.utf8ByteSize ∧
        ∀ threshold, SignedSums.grammar.parse "x\né" "s" threshold =
          .error (.parse (.behind before "s")
            [⟨.error, e.message, some (.behind before "s")⟩]) :=
  ⟨SignedSums.parse?_unexpectedLetter, by decide, by decide,
    ((tree_or_error_and_parse SignedSums.parse?_unexpectedLetter).2 SignedSums.grammar rfl "s").2 _
      List.mem_cons_self⟩

end TypedGrammar
