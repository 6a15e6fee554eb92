import Mathlib.Data.ENat.Basic
import TypedGrammar.Matching.Rule
import TypedGrammar.Proofs.Matching.Progress

/-!
# Ordered choice

What it means to evaluate the shapes of a language by ordered choice, said as a relation: a task at
some place of a text has a verdict, which is a failure or the trees that were matched and the place
where the match ends.  Alternatives are tried in order from the same place, repetitions take as
many whole pairs as they can, and what fails gives back all its input.

Each evaluation has some room for open rules.  With the room `⊤` nothing is ever refused; a finite
room refuses every rule for which no room is left.  An evaluation that never ends, be it by left
recursion or by a repetition of nothing, has no verdict.
-/

namespace TypedGrammar

/-- What is to be evaluated at some place. -/
inductive Task
  | term (index : TermIndex)
  | shape (shape : Shape)
  /-- All shapes, one after the other. -/
  | all (shapes : List Shape)
  /-- The first of some shapes that matches. -/
  | first (shape : Shape) (others : List Shape)
  /-- An item, then pairs of a delimiter and an item, then a delimiter if it may be trailing. -/
  | items (item delimiter : Shape) (trailing : Bool)
  /-- A delimiter and an item, as often as both are there. -/
  | pairs (item delimiter : Shape)

/-- How an evaluation ends. -/
inductive Verdict
  | matched (trees : List Tree) (stop : Cursor)
  | failed

namespace Verdict

/-- The verdict with other trees. -/
def map (f : List Tree → List Tree) : Verdict → Verdict
  | matched trees stop => matched (f trees) stop
  | failed => failed

/-- Nothing is matched instead of a failure, if that is allowed. -/
def orNothing (allowed : Bool) (start : Cursor) : Verdict → Verdict
  | matched trees stop => matched trees stop
  | failed => if allowed then matched [] start else failed

/-- If anything is matched, the match ends at a place with a property. -/
def Ends (P : Cursor → Prop) : Verdict → Prop
  | matched _ stop => P stop
  | failed => True

variable {P Q : Cursor → Prop} {f : List Tree → List Tree} {verdict : Verdict}

@[simp] theorem ends_map : (verdict.map f).Ends P ↔ verdict.Ends P := by
  cases verdict <;> exact Iff.rfl

theorem Ends.imp (h : verdict.Ends P) (hPQ : ∀ stop, P stop → Q stop) : verdict.Ends Q := by
  cases verdict with
  | matched trees stop => exact hPQ stop h
  | failed => trivial

/-- What may be missing ends at its start, or where it would end anyway. -/
theorem Ends.orNothing {allowed : Bool} {start : Cursor} (h : verdict.Ends P) (hstart : P start) :
    (verdict.orNothing allowed start).Ends P := by
  cases verdict with
  | matched trees stop => exact h
  | failed =>
    cases allowed with
    | false => trivial
    | true => exact hstart

end Verdict

/-! ## Terminals -/

/-- The lexicon of a language that reserves no words and has no comments. Its symbols are found
without sorting them: they are in order as they stand. -/
theorem Language.lexicon_of_texts {language : Language} {symbols : List String}
    (htexts : ((language.keyTerms.records.toList.map (·.text)).filter
      fun text => !text.isEmpty && !Text.isWord text).eraseDups = symbols)
    (hsorted : symbols.Pairwise (· ≤ ·)) (hreserved : language.reserved = [])
    (hcomments : language.comments = []) : language.lexicon = ⟨symbols, [], []⟩ := by
  have hsymbols : language.symbols = symbols := by
    rw [Language.symbols, htexts]
    exact List.mergeSort_of_pairwise (hsorted.imp decide_eq_true)
  rw [Language.lexicon, hsymbols, hreserved, hcomments]

/-- The white space and comments from one place to another are skipped. -/
def Skips (comments : List Comment) (start stop : Cursor) : Prop :=
  ∃ items, Matcher.Takes (Matcher.many (Matcher.triviaItem comments)) start items stop

/-- What was skipped, as a tree if it is anything. -/
def skipped (start stop : Cursor) : List Tree :=
  if start.index < stop.index then [.token .trivia (start.between stop)] else []

/-- A token of some kind stands between two places. -/
def Scans (lexicon : Lexicon) (kind : TermKind) (start stop : Cursor) : Prop :=
  ∃ token text, Matcher.tokenText? lexicon kind = some token ∧ token.Takes start text stop

/-- No token of some kind stands at a place. -/
def ScansNothing (lexicon : Lexicon) (kind : TermKind) (start : Cursor) : Prop :=
  ∃ token, Matcher.tokenText? lexicon kind = some token ∧ token.Fails start

section Terminals

variable {comments : List Comment} {lexicon : Lexicon} {kind : TermKind}
  {start stop stop' : Cursor}

/-- Skipping goes forward. -/
theorem Skips.le (h : Skips comments start stop) : start ≤ stop := by
  obtain ⟨items, hitems⟩ := h
  exact (Matcher.steady_many (Matcher.eager_triviaItem comments)).advances hitems

/-- There is one place up to which is skipped. -/
theorem Skips.unique (h : Skips comments start stop) (h' : Skips comments start stop') :
    stop = stop' := by
  obtain ⟨items, hitems⟩ := h
  obtain ⟨items', hitems'⟩ := h'
  exact (hitems.unique hitems').2

/-- Scanning a token goes forward. -/
theorem Scans.le (h : Scans lexicon kind start stop) : start ≤ stop := by
  obtain ⟨token, text, htoken, htext⟩ := h
  exact (Matcher.steady_token htoken).advances htext

/-- Only the empty text is a token of no characters. -/
theorem Scans.lt (h : Scans lexicon kind start stop) (hkind : kind ≠ .key "") : start < stop := by
  obtain ⟨token, text, htoken, htext⟩ := h
  exact (Matcher.eager_token htoken hkind).consumes htext

/-- There is one place where a token ends. -/
theorem Scans.unique (h : Scans lexicon kind start stop) (h' : Scans lexicon kind start stop') :
    stop = stop' := by
  obtain ⟨token, text, htoken, htext⟩ := h
  obtain ⟨token', text', htoken', htext'⟩ := h'
  obtain rfl := Option.some.inj (htoken.symm.trans htoken')
  exact (htext.unique htext').2

/-- Where a token is scanned, its scanner does not fail. -/
theorem Scans.not_nothing (h : Scans lexicon kind start stop) :
    ¬ ScansNothing lexicon kind start := by
  rintro ⟨token', htoken', hfails⟩
  obtain ⟨token, text, htoken, htext⟩ := h
  obtain rfl := Option.some.inj (htoken.symm.trans htoken')
  exact htext.not_fails hfails

/-- A rule is no token. -/
theorem Scans.not_rule (h : Scans lexicon kind start stop) (shape : Option Shape) :
    kind ≠ .rule shape := by
  rintro rfl
  obtain ⟨token, text, htoken, _⟩ := h
  cases htoken

/-- Only tokens may fail to be scanned; rules are not scanned at all. -/
theorem ScansNothing.not_rule (h : ScansNothing lexicon kind start) (shape : Option Shape) :
    kind ≠ .rule shape := by
  rintro rfl
  obtain ⟨token, htoken, _⟩ := h
  cases htoken

end Terminals

namespace Language

/-- The term of an index is a rule with a shape. -/
def Defines (language : Language) (index : TermIndex) (term : Term) (shape : Shape) : Prop :=
  language.term? index = some term ∧ term.kind = .rule (some shape)

/-- The verdict on a term that is no rule with a shape. -/
inductive ScansTerm (language : Language) (index : TermIndex) (start : Cursor) : Verdict → Prop
  /-- An unknown term fails. -/
  | unknown : language.term? index = none → ScansTerm language index start .failed
  /-- A rule without a shape fails. -/
  | undefined {term} :
      language.term? index = some term → term.kind = .rule none →
      ScansTerm language index start .failed
  /-- A terminal skips trivia and scans its token. -/
  | token {term middle stop} :
      language.term? index = some term →
      Skips language.comments start middle → Scans language.lexicon term.kind middle stop →
      ScansTerm language index start
        (.matched (skipped start middle ++ [.token (.term index) (middle.between stop)]) stop)
  | noToken {term middle} :
      language.term? index = some term →
      Skips language.comments start middle → ScansNothing language.lexicon term.kind middle →
      ScansTerm language index start .failed

/-! ## Evaluation -/

/-- **Ordered choice.**  With room for so many open rules, a task at a place has a verdict. -/
inductive Evaluates (language : Language) : ℕ∞ → Task → Cursor → Verdict → Prop
  | scan {room index start verdict} :
      language.ScansTerm index start verdict →
      Evaluates language room (.term index) start verdict
  /-- A rule makes one node of its trees, or none if it is transient. -/
  | rule {room index term shape start verdict} :
      language.Defines index term shape → room ≠ 0 →
      Evaluates language (room - 1) (.shape shape) start verdict →
      Evaluates language room (.term index) start (verdict.map (ruleTrees index term))
  /-- Where no room is left, a rule is refused. -/
  | refused {room index term shape start} :
      language.Defines index term shape → room = 0 →
      Evaluates language room (.term index) start .failed
  | empty {room start} : Evaluates language room (.shape .empty) start (.matched [] start)
  | hint {room hint start} : Evaluates language room (.shape (.hint hint)) start (.matched [] start)
  | reference {room index start verdict} :
      Evaluates language room (.term index) start verdict →
      Evaluates language room (.shape (.term index)) start verdict
  | sequence {room items start verdict} :
      Evaluates language room (.all items) start verdict →
      Evaluates language room (.shape (.sequence items)) start verdict
  /-- A choice without alternatives matches nothing. -/
  | noAlternative {room start} :
      Evaluates language room (.shape (.choice [])) start (.matched [] start)
  | choice {room shape others start verdict} :
      Evaluates language room (.first shape others) start verdict →
      Evaluates language room (.shape (.choice (shape :: others))) start verdict
  | repeated {room item bounds start verdict} :
      Evaluates language room (.items item .empty false) start verdict →
      Evaluates language room (.shape (.repeated item bounds)) start
        (verdict.orNothing bounds.allowEmpty start)
  | separated {room item delimiter bounds start verdict} :
      Evaluates language room (.items item delimiter bounds.allowTrailing) start verdict →
      Evaluates language room (.shape (.separated item delimiter bounds)) start
        (verdict.orNothing bounds.allowEmpty start)
  | allNil {room start} : Evaluates language room (.all []) start (.matched [] start)
  | allFail {room shape rest start} :
      Evaluates language room (.shape shape) start .failed →
      Evaluates language room (.all (shape :: rest)) start .failed
  | allCons {room shape rest start middle trees verdict} :
      Evaluates language room (.shape shape) start (.matched trees middle) →
      Evaluates language room (.all rest) middle verdict →
      Evaluates language room (.all (shape :: rest)) start (verdict.map (trees ++ ·))
  /-- The first alternative that matches is taken. -/
  | firstMatch {room shape others start trees stop} :
      Evaluates language room (.shape shape) start (.matched trees stop) →
      Evaluates language room (.first shape others) start (.matched trees stop)
  | firstFail {room shape start} :
      Evaluates language room (.shape shape) start .failed →
      Evaluates language room (.first shape []) start .failed
  /-- The next alternative is tried from the same place. -/
  | firstNext {room shape next others start verdict} :
      Evaluates language room (.shape shape) start .failed →
      Evaluates language room (.first next others) start verdict →
      Evaluates language room (.first shape (next :: others)) start verdict
  | itemsFail {room item delimiter trailing start} :
      Evaluates language room (.shape item) start .failed →
      Evaluates language room (.items item delimiter trailing) start .failed
  | items {room item delimiter start middle stop trees more} :
      Evaluates language room (.shape item) start (.matched trees middle) →
      Evaluates language room (.pairs item delimiter) middle (.matched more stop) →
      Evaluates language room (.items item delimiter false) start (.matched (trees ++ more) stop)
  | itemsTrailing {room item delimiter start middle after stop trees more last} :
      Evaluates language room (.shape item) start (.matched trees middle) →
      Evaluates language room (.pairs item delimiter) middle (.matched more after) →
      Evaluates language room (.shape delimiter) after (.matched last stop) →
      Evaluates language room (.items item delimiter true) start
        (.matched (trees ++ more ++ last) stop)
  | itemsNoTrailing {room item delimiter start middle stop trees more} :
      Evaluates language room (.shape item) start (.matched trees middle) →
      Evaluates language room (.pairs item delimiter) middle (.matched more stop) →
      Evaluates language room (.shape delimiter) stop .failed →
      Evaluates language room (.items item delimiter true) start (.matched (trees ++ more) stop)
  /-- Where a whole pair is not there, its input is given back. -/
  | pairsEnd {room item delimiter start} :
      Evaluates language room (.all [delimiter, item]) start .failed →
      Evaluates language room (.pairs item delimiter) start (.matched [] start)
  | pairsNext {room item delimiter start middle stop trees more} :
      Evaluates language room (.all [delimiter, item]) start (.matched trees middle) →
      Evaluates language room (.pairs item delimiter) middle (.matched more stop) →
      Evaluates language room (.pairs item delimiter) start (.matched (trees ++ more) stop)

/-- **Documents.**  A whole text is the root, trivia and the end of the text; it is read as a
tree, or refused. -/
inductive Reads (language : Language) (room : ℕ∞) (text : String) : Option Tree → Prop
  | accepted {trees middle stop} :
      language.Evaluates room (.term language.root) (Cursor.start text.toList)
        (.matched trees middle) →
      Skips language.comments middle stop → stop.rest = [] →
      Reads language room text (some (.node .document (trees ++ skipped middle stop)))
  | leftOver {trees middle stop} :
      language.Evaluates room (.term language.root) (Cursor.start text.toList)
        (.matched trees middle) →
      Skips language.comments middle stop → stop.rest ≠ [] →
      Reads language room text none
  | rejected :
      language.Evaluates room (.term language.root) (Cursor.start text.toList) .failed →
      Reads language room text none

/-! ## Determinism -/

section Determinism

variable {language : Language} {index : TermIndex} {term term' : Term} {shape shape' : Shape}
  {start : Cursor} {v w : Verdict}

/-- A term has one definition. -/
theorem Defines.unique (h : language.Defines index term shape)
    (h' : language.Defines index term' shape') : term = term' ∧ shape = shape' := by
  obtain rfl := Option.some.inj (h.1.symm.trans h'.1)
  have hkind := h.2.symm.trans h'.2
  injection hkind with hshape
  injection hshape with hshape
  exact ⟨rfl, hshape⟩

/-- A rule with a shape is not scanned. -/
theorem ScansTerm.not_defines (h : language.ScansTerm index start v) :
    ¬ language.Defines index term shape := by
  rintro ⟨hterm, hkind⟩
  cases h with
  | unknown hnone =>
    rw [hterm] at hnone
    cases hnone
  | undefined hterm' hkind' =>
    obtain rfl := Option.some.inj (hterm.symm.trans hterm')
    rw [hkind] at hkind'
    cases hkind'
  | token hterm' _ hscans =>
    obtain rfl := Option.some.inj (hterm.symm.trans hterm')
    exact hscans.not_rule _ hkind
  | noToken hterm' _ hnothing =>
    obtain rfl := Option.some.inj (hterm.symm.trans hterm')
    exact hnothing.not_rule _ hkind

/-- A terminal has one outcome at each place. -/
theorem ScansTerm.unique (h : language.ScansTerm index start v)
    (h' : language.ScansTerm index start w) : v = w := by
  cases h with
  | unknown hnone =>
    cases h' with
    | unknown => rfl
    | undefined => rfl
    | token hterm => simp [hnone] at hterm
    | noToken => rfl
  | undefined hterm hkind =>
    cases h' with
    | unknown => rfl
    | undefined => rfl
    | token hterm' _ hscans =>
      obtain rfl := Option.some.inj (hterm.symm.trans hterm')
      exact absurd hkind (hscans.not_rule none)
    | noToken => rfl
  | token hterm hskips hscans =>
    cases h' with
    | unknown hnone => simp [hnone] at hterm
    | undefined hterm' hkind =>
      obtain rfl := Option.some.inj (hterm.symm.trans hterm')
      exact absurd hkind (hscans.not_rule none)
    | token hterm' hskips' hscans' =>
      obtain rfl := Option.some.inj (hterm.symm.trans hterm')
      obtain rfl := hskips.unique hskips'
      obtain rfl := hscans.unique hscans'
      rfl
    | noToken hterm' hskips' hnothing =>
      obtain rfl := Option.some.inj (hterm.symm.trans hterm')
      obtain rfl := hskips.unique hskips'
      exact absurd hnothing hscans.not_nothing
  | noToken hterm hskips hnothing =>
    cases h' with
    | unknown => rfl
    | undefined => rfl
    | token hterm' hskips' hscans =>
      obtain rfl := Option.some.inj (hterm.symm.trans hterm')
      obtain rfl := hskips.unique hskips'
      exact absurd hnothing hscans.not_nothing
    | noToken => rfl

/-- **Determinism.**  A task at a place has at most one verdict. -/
theorem Evaluates.unique {room : ℕ∞} {task : Task} (h : language.Evaluates room task start v)
    (h' : language.Evaluates room task start w) : v = w := by
  -- By induction on the first evaluation.  The second one ends in a rule for the same task.
  induction h generalizing w with
  | scan hscan =>
    cases h' with
    | scan hscan' => exact hscan.unique hscan'
    | rule hdef => exact absurd hdef hscan.not_defines
    | refused hdef => exact absurd hdef hscan.not_defines
  | rule hdef hroom _ ih =>
    cases h' with
    | scan hscan => exact absurd hdef hscan.not_defines
    | rule hdef' _ h' =>
      obtain ⟨rfl, rfl⟩ := hdef.unique hdef'
      rw [ih h']
    | refused _ hzero => exact absurd hzero hroom
  | refused hdef hzero =>
    cases h' with
    | scan hscan => exact absurd hdef hscan.not_defines
    | rule _ hroom _ => exact absurd hzero hroom
    | refused => rfl
  | empty => cases h'; rfl
  | hint => cases h'; rfl
  | reference _ ih =>
    cases h' with
    | reference h' => exact ih h'
  | sequence _ ih =>
    cases h' with
    | sequence h' => exact ih h'
  | noAlternative => cases h'; rfl
  | choice _ ih =>
    cases h' with
    | choice h' => exact ih h'
  | repeated _ ih =>
    cases h' with
    | repeated h' => rw [ih h']
  | separated _ ih =>
    cases h' with
    | separated h' => rw [ih h']
  | allNil => cases h'; rfl
  -- Where a task has several rules, they differ in the verdict on what is tried first.
  | allFail _ ih =>
    cases h' with
    | allFail => rfl
    | allCons h' _ => cases ih h'
  | allCons _ _ ih ihRest =>
    cases h' with
    | allFail h' => cases ih h'
    | allCons h' hrest =>
      cases ih h'
      rw [ihRest hrest]
  | firstMatch _ ih =>
    cases h' with
    | firstMatch h' => exact ih h'
    | firstFail h' => exact ih h'
    | firstNext h' _ => cases ih h'
  | firstFail _ ih =>
    cases h' with
    | firstMatch h' => exact ih h'
    | firstFail => rfl
  | firstNext _ _ ih ihNext =>
    cases h' with
    | firstMatch h' => cases ih h'
    | firstNext _ hnext => exact ihNext hnext
  | itemsFail _ ih =>
    cases h' with
    | itemsFail => rfl
    | items h' _ => cases ih h'
    | itemsTrailing h' _ _ => cases ih h'
    | itemsNoTrailing h' _ _ => cases ih h'
  | items _ _ ih ihPairs =>
    cases h' with
    | itemsFail h' => cases ih h'
    | items h' hpairs =>
      cases ih h'
      cases ihPairs hpairs
      rfl
  | itemsTrailing _ _ _ ih ihPairs ihLast =>
    cases h' with
    | itemsFail h' => cases ih h'
    | itemsTrailing h' hpairs hlast =>
      cases ih h'
      cases ihPairs hpairs
      cases ihLast hlast
      rfl
    | itemsNoTrailing h' hpairs hlast =>
      cases ih h'
      cases ihPairs hpairs
      cases ihLast hlast
  | itemsNoTrailing _ _ _ ih ihPairs ihLast =>
    cases h' with
    | itemsFail h' => cases ih h'
    | itemsTrailing h' hpairs hlast =>
      cases ih h'
      cases ihPairs hpairs
      cases ihLast hlast
    | itemsNoTrailing h' hpairs _ =>
      cases ih h'
      cases ihPairs hpairs
      rfl
  | pairsEnd _ ih =>
    cases h' with
    | pairsEnd => rfl
    | pairsNext h' _ => cases ih h'
  | pairsNext _ _ ih ihPairs =>
    cases h' with
    | pairsEnd h' => cases ih h'
    | pairsNext h' hpairs =>
      cases ih h'
      cases ihPairs hpairs
      rfl

/-- A text is read as at most one tree, and not also refused. -/
theorem Reads.unique {room : ℕ∞} {text : String} {result result' : Option Tree}
    (h : language.Reads room text result) (h' : language.Reads room text result') :
    result = result' := by
  cases h with
  | accepted hroot hskips hend =>
    cases h' with
    | accepted hroot' hskips' _ =>
      cases hroot.unique hroot'
      obtain rfl := hskips.unique hskips'
      rfl
    | leftOver hroot' hskips' hrest =>
      cases hroot.unique hroot'
      obtain rfl := hskips.unique hskips'
      exact absurd hend hrest
    | rejected hroot' => cases hroot.unique hroot'
  | leftOver hroot hskips hrest =>
    cases h' with
    | accepted hroot' hskips' hend =>
      cases hroot.unique hroot'
      obtain rfl := hskips.unique hskips'
      exact absurd hend hrest
    | leftOver => rfl
    | rejected => rfl
  | rejected hroot =>
    cases h' with
    | accepted hroot' _ _ => cases hroot.unique hroot'
    | leftOver => rfl
    | rejected => rfl

end Determinism

end Language

end TypedGrammar
