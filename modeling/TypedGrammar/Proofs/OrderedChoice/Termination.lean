import Mathlib.Data.Finset.Card
import TypedGrammar.Proofs.OrderedChoice.Soundness

/-!
# Termination of ordered choice

Ordered choice has a verdict on every task, unless a rule is entered again where it is open or a
repetition takes a delimiter and an item that are nothing together.  In between, evaluation goes on
in the text, or opens a rule that was not open at its place, or turns to smaller shapes.
-/

namespace TypedGrammar

/-! ## Sizes -/

/-- The size of a shape: the number of its parts, where repetitions count twice. -/
def Shape.size (shape : Shape) : ℕ :=
  (shape.parts.map fun part => if part.repetition?.isSome then 2 else 1).sum

namespace Shape

variable {shapes : List Shape} {item delimiter : Shape} {bounds : Bounds}

theorem sum_partsOfAll (f : Shape → ℕ) :
    ((partsOfAll shapes).map f).sum = (shapes.map fun shape => (shape.parts.map f).sum).sum := by
  induction shapes with
  | nil => rfl
  | cons shape rest ih =>
    rw [partsOfAll, List.map_append, List.sum_append, ih, List.map_cons, List.sum_cons]

@[simp] theorem size_sequence : (sequence shapes).size = 1 + (shapes.map size).sum := by
  rw [size, parts, List.map_cons, List.sum_cons, sum_partsOfAll]
  rfl

@[simp] theorem size_choice : (choice shapes).size = 1 + (shapes.map size).sum := by
  rw [size, parts, List.map_cons, List.sum_cons, sum_partsOfAll]
  rfl

@[simp] theorem size_empty : size .empty = 1 := rfl

@[simp] theorem size_repeated : (repeated item bounds).size = 2 + item.size := by
  rw [size, parts, List.map_cons, List.sum_cons]
  rfl

@[simp] theorem size_separated :
    (separated item delimiter bounds).size = 2 + (item.size + delimiter.size) := by
  rw [size, parts, List.map_cons, List.sum_cons, List.map_append, List.sum_append]
  rfl

theorem size_pos (shape : Shape) : 0 < shape.size := by
  cases shape <;> simp [size, parts, repetition?]

end Shape

/-- The size of a task. -/
def Task.size : Task → ℕ
  | .term _ => 0
  | .shape s => 4 * s.size
  | .all shapes => 4 * (shapes.map Shape.size).sum + 1
  | .first s others => 4 * ((s :: others).map Shape.size).sum + 1
  | .items item delimiter _ => 4 * (item.size + delimiter.size) + 3
  | .pairs item delimiter => 4 * (item.size + delimiter.size) + 2

namespace Language

open Matcher

variable {language : Language} {room : ℕ∞} {task task' : Task} {start start' : Cursor}

/-- A task tries smaller ones, but for pairs: these try themselves behind the first of them. -/
theorem Tries.size_lt (h : language.Tries room task start task' start') :
    task'.size < task.size ∨ ∃ item delimiter trees, task = .pairs item delimiter ∧ task' = task ∧
      language.Evaluates room (.all [delimiter, item]) start (.matched trees start') := by
  cases h with
  | nextPair hpair => exact Or.inr ⟨_, _, _, rfl, rfl, hpair⟩
  | @reference index _ =>
    have := (Shape.term index).size_pos
    left
    simp only [Task.size]
    omega
  | @allTail shape _ _ _ _ _ | @firstTail shape _ _ _ _ =>
    have := shape.size_pos
    left
    simp only [Task.size, List.map_cons, List.sum_cons]
    omega
  | sequence | choice | repeated | separated | allHead | firstHead | item | pairs | trailing
    | pair =>
    left
    simp only [Task.size, Shape.size_sequence, Shape.size_choice, Shape.size_repeated,
      Shape.size_separated, Shape.size_empty, List.map_cons, List.map_nil, List.sum_cons,
      List.sum_nil]
    omega

/-! ## Verdicts -/

/-- A task has a verdict at a place. -/
def HasVerdict (language : Language) (task : Task) (start : Cursor) : Prop :=
  ∃ verdict, language.Evaluates ⊤ task start verdict

/-- What is no rule with a shape is scanned. -/
theorem exists_scansTerm {index : TermIndex}
    (h : ∀ term shape, ¬ language.Defines index term shape) (start : Cursor) :
    ∃ verdict, language.ScansTerm index start verdict := by
  rcases language.taskMatcher_term 0 index with
    ⟨message, _, hscan⟩ | ⟨term, token, hterm, htoken, _⟩ | ⟨term, shape, hdef, _⟩
  · exact ⟨_, hscan start⟩
  · rcases takes_or_fails_or_stalls (terminal language.comments index token) start with
      ⟨trees, stop, htakes⟩ | hfails | hstalls
    · obtain ⟨middle, text, hskips, htext, _⟩ := takes_terminal.mp htakes
      exact ⟨_, .token hterm hskips ⟨token, text, htoken, htext⟩⟩
    · obtain ⟨middle, hskips, hnothing⟩ := fails_terminal.mp hfails
      exact ⟨_, .noToken hterm hskips ⟨token, htoken, hnothing⟩⟩
    · exact absurd hstalls (not_stalls_terminal htoken)
  · exact absurd hdef (h term shape)

/-- Pairs never fail. -/
theorem Evaluates.exists_pairs {item delimiter : Shape} {verdict : Verdict}
    (h : language.Evaluates room (.pairs item delimiter) start verdict) :
    ∃ trees stop, verdict = .matched trees stop := by
  cases h with
  | pairsEnd => exact ⟨_, _, rfl⟩
  | pairsNext => exact ⟨_, _, rfl⟩

/-- **Progress.**  A task has a verdict if all that it tries have one, and the shape that it opens
if it is a rule. -/
theorem hasVerdict_of_tries
    (htries : ∀ task' start', language.Tries ⊤ task start task' start' →
      language.HasVerdict task' start')
    (hopens : ∀ index term shape, task = .term index → language.Defines index term shape →
      language.HasVerdict (.shape shape) start) : language.HasVerdict task start := by
  cases task with
  | term index =>
    -- A term is a rule, which is opened, or it is scanned as a terminal.
    by_cases hrule : ∃ term shape, language.Defines index term shape
    · obtain ⟨term, shape, hdef⟩ := hrule
      obtain ⟨verdict, hshape⟩ := hopens index term shape rfl hdef
      exact ⟨_, .rule hdef ENat.top_ne_zero hshape⟩
    · obtain ⟨verdict, hscan⟩ :=
        exists_scansTerm (fun term shape hdef => hrule ⟨term, shape, hdef⟩) start
      exact ⟨verdict, .scan hscan⟩
  | shape s =>
    cases s with
    | empty => exact ⟨_, .empty⟩
    | hint hint => exact ⟨_, .hint⟩
    | term index =>
      obtain ⟨verdict, h⟩ := htries _ _ .reference
      exact ⟨verdict, .reference h⟩
    | sequence items =>
      obtain ⟨verdict, h⟩ := htries _ _ .sequence
      exact ⟨verdict, .sequence h⟩
    | choice alternatives =>
      cases alternatives with
      | nil => exact ⟨_, .noAlternative⟩
      | cons s others =>
        obtain ⟨verdict, h⟩ := htries _ _ .choice
        exact ⟨verdict, .choice h⟩
    | repeated item bounds =>
      obtain ⟨verdict, h⟩ := htries _ _ .repeated
      exact ⟨_, .repeated h⟩
    | separated item delimiter bounds =>
      obtain ⟨verdict, h⟩ := htries _ _ .separated
      exact ⟨_, .separated h⟩
  | all shapes =>
    cases shapes with
    | nil => exact ⟨_, .allNil⟩
    | cons s rest =>
      obtain ⟨verdict, hhead⟩ := htries _ _ .allHead
      cases verdict with
      | failed => exact ⟨_, .allFail hhead⟩
      | matched trees middle =>
        obtain ⟨verdict, htail⟩ := htries _ _ (.allTail hhead)
        exact ⟨_, .allCons hhead htail⟩
  | first s others =>
    obtain ⟨verdict, hhead⟩ := htries _ _ .firstHead
    cases verdict with
    | matched trees stop => exact ⟨_, .firstMatch hhead⟩
    | failed =>
      cases others with
      | nil => exact ⟨_, .firstFail hhead⟩
      | cons next others =>
        obtain ⟨verdict, htail⟩ := htries _ _ (.firstTail hhead)
        exact ⟨verdict, .firstNext hhead htail⟩
  | items item delimiter trailing =>
    obtain ⟨verdict, hitem⟩ := htries _ _ .item
    cases verdict with
    | failed => exact ⟨_, .itemsFail hitem⟩
    | matched trees middle =>
      obtain ⟨verdict, hpairs⟩ := htries _ _ (.pairs hitem)
      -- Pairs do not fail, so that only the delimiter behind them is left to decide.
      obtain ⟨more, after, rfl⟩ := hpairs.exists_pairs
      cases trailing with
      | false => exact ⟨_, .items hitem hpairs⟩
      | true =>
        obtain ⟨verdict, hlast⟩ := htries _ _ (.trailing hitem hpairs)
        cases verdict with
        | failed => exact ⟨_, .itemsNoTrailing hitem hpairs hlast⟩
        | matched last stop => exact ⟨_, .itemsTrailing hitem hpairs hlast⟩
  | pairs item delimiter =>
    obtain ⟨verdict, hpair⟩ := htries _ _ .pair
    cases verdict with
    | failed => exact ⟨_, .pairsEnd hpair⟩
    | matched trees middle =>
      obtain ⟨verdict, hmore⟩ := htries _ _ (.nextPair hpair)
      obtain ⟨more, stop, rfl⟩ := hmore.exists_pairs
      exact ⟨_, .pairsNext hpair hmore⟩

/-! ## Termination -/

/-- No rule is entered again at a place where it is open. -/
def NeverReenters (language : Language) : Prop :=
  ∀ index opened place,
    ¬ language.Attempts ⊤ (.term index) place (opened + 1) (.term index) place

/-- The rule of a number has been opened at a place on the way to a task. -/
def OpenAt (language : Language) (task : Task) (start : Cursor) (index : TermIndex) : Prop :=
  ∃ opened, language.Attempts ⊤ (.term index) start (opened + 1) task start

theorem OpenAt.tries {index : TermIndex} (h : language.OpenAt task start index)
    (htry : language.Tries ⊤ task start task' start) : language.OpenAt task' start index := by
  obtain ⟨opened, hattempt⟩ := h
  exact ⟨opened, hattempt.trans (.inside htry .here)⟩

theorem OpenAt.opens {index inner : TermIndex} {term : Term} {shape : Shape}
    (h : language.OpenAt (.term inner) start index) (hdef : language.Defines inner term shape) :
    language.OpenAt (.shape shape) start index := by
  obtain ⟨opened, hattempt⟩ := h
  exact ⟨opened + 1, hattempt.open hdef (by rw [ENat.top_sub_natCast]; exact ENat.top_ne_zero)⟩

theorem Defines.value_lt {index : TermIndex} {term : Term} {shape : Shape}
    (h : language.Defines index term shape) : index.value < language.terms.size :=
  (Array.getElem?_eq_some_iff.mp h.1).1

/-- **Termination.**  If no rule is entered again where it is open, a task has a verdict, unless it
gets stuck in a repetition.  Each rule is among the closed ones or has been opened at the place; the
text that remains, the closed rules and the size of the task bound what is left to do. -/
theorem NeverReenters.hasVerdict_of_closed (hfree : language.NeverReenters) {task : Task}
    {start : Cursor} (closed : Finset ℕ)
    (hclosed : ∀ index term shape, language.Defines index term shape →
      index.value ∈ closed ∨ language.OpenAt task start index)
    (hstuck : ¬ language.Stuck ⊤ task start) : language.HasVerdict task start := by
  refine hasVerdict_of_tries ?_ ?_
  · intro task' start' htry
    have hstuck' : ¬ language.Stuck ⊤ task' start' := fun h => hstuck (htry.stuck h)
    rcases htry.le.eq_or_lt with hsame | hlt
    · subst hsame
      rcases htry.size_lt with hsize | ⟨item, delimiter, trees, rfl, rfl, hpair⟩
      · refine hfree.hasVerdict_of_closed closed (fun index term shape hdef => ?_) hstuck'
        exact (hclosed index term shape hdef).imp id (·.tries htry)
      · -- A pair has taken nothing.
        exact absurd ⟨0, item, delimiter, start, trees, .here, by rwa [Nat.cast_zero, tsub_zero]⟩
          hstuck
    · -- At a later place every rule may be opened again.
      have hremaining := (Cursor.remaining_lt_iff hlt.le).mpr hlt
      exact hfree.hasVerdict_of_closed (Finset.range language.terms.size)
        (fun index term shape hdef => Or.inl (Finset.mem_range.mpr hdef.value_lt)) hstuck'
  · rintro index term shape rfl hdef
    have hmem : index.value ∈ closed := by
      refine (hclosed index term shape hdef).resolve_right ?_
      rintro ⟨opened, hattempt⟩
      exact hfree index opened start hattempt
    -- One rule less may still be opened at this place.
    have hcard := Finset.card_erase_lt_of_mem hmem
    refine hfree.hasVerdict_of_closed (closed.erase index.value) ?_ ?_
    · intro other term' shape' hdef'
      by_cases hother : other = index
      · subst hother
        exact Or.inr ⟨0, .opens hdef ENat.top_ne_zero .here⟩
      · refine (hclosed other term' shape' hdef').imp ?_ (·.opens hdef)
        refine Finset.mem_erase_of_ne_of_mem fun hvalue => hother ?_
        cases other
        cases index
        simpa using hvalue
    · exact fun h => hstuck (hdef.stuck ENat.top_ne_zero h)
termination_by (start.remaining, closed.card, task.size)
decreasing_by
  · exact Prod.Lex.right _ (Prod.Lex.right _ hsize)
  · exact Prod.Lex.left _ _ hremaining
  · exact Prod.Lex.right _ (Prod.Lex.left _ _ hcard)

/-- If no rule is entered again where it is open, every task has a verdict where it does not get
stuck in a repetition. -/
theorem NeverReenters.hasVerdict (hfree : language.NeverReenters)
    (hstuck : ¬ language.Stuck ⊤ task start) : language.HasVerdict task start :=
  hfree.hasVerdict_of_closed (Finset.range language.terms.size)
    (fun _ _ _ hdef => Or.inl (Finset.mem_range.mpr hdef.value_lt)) hstuck

end Language

end TypedGrammar
