import TypedGrammar.Proofs.OrderedChoice.Matchers

/-!
# Soundness of the engine

Where the matcher of a task takes a text or fails, this is the verdict of ordered choice; and where
it stalls, a repetition is attempted whose delimiter and item take nothing together.  The engine
and ordered choice have the same room for open rules here.
-/

namespace TypedGrammar

namespace Language

open Matcher Shape

variable {language : Language} {room : ℕ} {start stop : Cursor} {trees : List Tree}

/-! ## Getting stuck -/

/-- On its way, a task attempts a repetition whose delimiter and item take nothing together. -/
def Stuck (language : Language) (room : ℕ∞) (task : Task) (start : Cursor) : Prop :=
  ∃ opened item delimiter place trees,
    language.Attempts room task start opened (.pairs item delimiter) place ∧
      language.Evaluates (room - opened) (.all [delimiter, item]) place (.matched trees place)

/-- A task is stuck if what it tries is. -/
theorem Tries.stuck {room : ℕ∞} {task task' : Task} {start' : Cursor}
    (htry : language.Tries room task start task' start')
    (h : language.Stuck room task' start') : language.Stuck room task start := by
  obtain ⟨opened, item, delimiter, place, trees, hattempt, hpair⟩ := h
  exact ⟨opened, item, delimiter, place, trees, .inside htry hattempt, hpair⟩

/-- A rule is stuck if its shape is, unless there is no room to open it. -/
theorem Defines.stuck {room : ℕ∞} {index : TermIndex} {term : Term} {shape : Shape}
    (hdef : language.Defines index term shape) (hroom : room ≠ 0)
    (h : language.Stuck (room - 1) (.shape shape) start) :
    language.Stuck room (.term index) start := by
  obtain ⟨opened, item, delimiter, place, trees, hattempt, hpair⟩ := h
  rw [← sub_succ] at hpair
  exact ⟨opened + 1, item, delimiter, place, trees, .opens hdef hroom hattempt, hpair⟩

/-! ## From the engine to ordered choice -/

/-- What the matcher of a task does is explained by ordered choice: a match is a match to the same
place, a failure is a failure, and a matcher that stalls is stuck. -/
structure Explains (language : Language) (room : ℕ) (task : Task) : Prop where
  takes : ∀ {start trees stop}, (language.taskMatcher room task).Takes start trees stop →
    ∃ trees', language.Evaluates room task start (.matched trees' stop)
  fails : ∀ {start}, (language.taskMatcher room task).Fails start →
    language.Evaluates room task start .failed
  stalls : ∀ {start}, (language.taskMatcher room task).Stalls start →
    language.Stuck room task start

/-- A term is explained if the shapes of rules are, with room for one rule less. -/
theorem explains_term {index : TermIndex}
    (hshape : ∀ below, room = below + 1 → ∀ shape, language.Explains below (.shape shape)) :
    language.Explains room (.term index) := by
  rcases language.taskMatcher_term room index with
    ⟨message, hmatcher, hscan⟩ | ⟨term, token, hterm, htoken, hmatcher⟩ |
      ⟨term, shape, hdef, hmatcher⟩
  · -- There is no such term, or it has no rule; then the matcher refuses.
    constructor <;> intro start <;> rw [hmatcher]
    · intro _ _ h
      exact absurd h takes_fail
    · exact fun _ => .scan (hscan start)
    · exact fun h => absurd h stalls_fail
  · -- The term is a terminal, and skips trivia before its token.
    constructor <;> intro start <;> rw [hmatcher]
    · intro trees stop h
      obtain ⟨middle, text, hskips, htext, _⟩ := takes_terminal.mp h
      exact ⟨_, .scan (.token hterm hskips ⟨token, text, htoken, htext⟩)⟩
    · intro h
      obtain ⟨middle, hskips, hfails⟩ := fails_terminal.mp h
      exact .scan (.noToken hterm hskips ⟨token, htoken, hfails⟩)
    · exact fun h => absurd h (not_stalls_terminal htoken)
  · -- The term is a rule.  Without room it is refused, and with room it is its shape.
    cases room with
    | zero =>
      constructor <;> intro start <;> rw [hmatcher]
      · intro _ _ h
        exact absurd h takes_fail
      · exact fun _ => .refused hdef Nat.cast_zero
      · exact fun h => absurd h stalls_fail
    | succ below =>
      have hne := natCast_succ_ne_zero below
      have hsub := natCast_succ_sub_one below
      have hbelow := hshape below rfl shape
      constructor <;> intro start <;> rw [hmatcher]
      · intro trees stop h
        obtain ⟨children, middle, hchildren, h⟩ := takes_andThen.mp h
        obtain ⟨_, rfl⟩ := takes_succeed.mp h
        obtain ⟨trees', heval⟩ := hbelow.takes hchildren
        exact ⟨_, .rule hdef hne (hsub ▸ heval)⟩
      · intro h
        rcases fails_andThen.mp h with h | ⟨_, _, _, h⟩
        · exact .rule hdef hne (hsub ▸ hbelow.fails h)
        · exact absurd h fails_succeed
      · intro h
        rcases stalls_andThen.mp h with h | ⟨_, _, _, h⟩
        · exact hdef.stuck hne (hsub ▸ hbelow.stalls h)
        · exact absurd h stalls_succeed

section Shapes

variable {shape item delimiter : Shape} {shapes : List Shape} {task task' : Task}

/-- What takes nothing is explained. -/
theorem explains_nothing (hmatcher : language.taskMatcher room task = succeed [])
    (heval : ∀ start, language.Evaluates room task start (.matched [] start)) :
    language.Explains room task := by
  constructor <;> intro start <;> rw [hmatcher]
  · intro trees stop h
    obtain ⟨_, rfl⟩ := takes_succeed.mp h
    exact ⟨[], heval _⟩
  · exact fun h => absurd h fails_succeed
  · exact fun h => absurd h stalls_succeed

/-- A task that does the same as another one is explained if the other one is. -/
theorem explains_same (hmatcher : language.taskMatcher room task = language.taskMatcher room task')
    (heval : ∀ start verdict, language.Evaluates room task' start verdict →
      language.Evaluates room task start verdict)
    (htry : ∀ start, language.Tries room task start task' start)
    (h : language.Explains room task') : language.Explains room task := by
  constructor <;> intro start <;> rw [hmatcher]
  · intro trees stop htakes
    obtain ⟨trees', htakes⟩ := h.takes htakes
    exact ⟨trees', heval _ _ htakes⟩
  · exact fun hfails => heval _ _ (h.fails hfails)
  · exact fun hstalls => (htry start).stuck (h.stalls hstalls)

/-- What may be missing is explained, if it is explained where it is there. -/
theorem explains_orNothing {allowed : Bool}
    (hmatcher : language.taskMatcher room task =
      matchOrNothing allowed (language.taskMatcher room task'))
    (heval : ∀ start verdict, language.Evaluates room task' start verdict →
      language.Evaluates room task start (verdict.orNothing allowed start))
    (htry : ∀ start, language.Tries room task start task' start)
    (h : language.Explains room task') : language.Explains room task := by
  constructor <;> intro start <;> rw [hmatcher]
  · intro trees stop htakes
    rcases takes_matchOrNothing.mp htakes with htakes | ⟨rfl, hfails, _, rfl⟩
    · obtain ⟨trees', htakes⟩ := h.takes htakes
      exact ⟨trees', heval _ _ htakes⟩
    · exact ⟨[], heval _ _ (h.fails hfails)⟩
  · intro hfails
    obtain ⟨hfails, rfl⟩ := fails_matchOrNothing.mp hfails
    exact heval _ _ (h.fails hfails)
  · intro hstalls
    exact (htry start).stuck (h.stalls (stalls_matchOrNothing.mp hstalls))

/-- A row of shapes is explained, if each shape is. -/
theorem explains_all (h : ∀ shape ∈ shapes, language.Explains room (.shape shape)) :
    language.Explains room (.all shapes) := by
  induction shapes with
  | nil => exact explains_nothing (by rw [taskMatcher, matchAll_nil]) fun _ => .allNil
  | cons shape rest ih =>
    have hhead := h shape List.mem_cons_self
    have hrest := ih fun s hs => h s (List.mem_cons_of_mem _ hs)
    constructor <;> intro start <;> rw [taskMatcher]
    · intro trees stop h
      obtain ⟨found, middle, more, hfound, hmore, _⟩ := takes_matchAll_cons.mp h
      obtain ⟨found', hfound⟩ := hhead.takes hfound
      obtain ⟨more', hmore⟩ := hrest.takes hmore
      exact ⟨_, .allCons hfound hmore⟩
    · intro h
      rcases fails_matchAll_cons.mp h with h | ⟨found, middle, hfound, h⟩
      · exact .allFail (hhead.fails h)
      · obtain ⟨found', hfound⟩ := hhead.takes hfound
        exact .allCons hfound (hrest.fails h)
    · intro h
      rcases stalls_matchAll_cons.mp h with h | ⟨found, middle, hfound, h⟩
      · exact Tries.allHead.stuck (hhead.stalls h)
      · obtain ⟨found', hfound⟩ := hhead.takes hfound
        exact (Tries.allTail hfound).stuck (hrest.stalls h)

/-- A choice is explained, if each alternative is. -/
theorem explains_first
    (h : ∀ alternative ∈ shape :: shapes, language.Explains room (.shape alternative)) :
    language.Explains room (.first shape shapes) := by
  induction shapes generalizing shape with
  | nil =>
    have hshape := h shape List.mem_cons_self
    constructor <;> intro start <;> rw [taskMatcher, matchFirst]
    · intro trees stop h
      obtain ⟨trees', h⟩ := hshape.takes h
      exact ⟨_, .firstMatch h⟩
    · exact fun h => .firstFail (hshape.fails h)
    · exact fun h => Tries.firstHead.stuck (hshape.stalls h)
  | cons next others ih =>
    have hshape := h shape List.mem_cons_self
    have hnext := ih fun s hs => h s (List.mem_cons_of_mem _ hs)
    constructor <;> intro start <;> rw [taskMatcher, matchFirst_cons_cons]
    · intro trees stop h
      rcases takes_orElse.mp h with h | ⟨hfails, h⟩
      · obtain ⟨trees', h⟩ := hshape.takes h
        exact ⟨_, .firstMatch h⟩
      · obtain ⟨trees', h⟩ := hnext.takes h
        exact ⟨_, .firstNext (hshape.fails hfails) h⟩
    · intro h
      obtain ⟨hfails, h⟩ := fails_orElse.mp h
      exact .firstNext (hshape.fails hfails) (hnext.fails h)
    · intro h
      rcases stalls_orElse.mp h with h | ⟨hfails, h⟩
      · exact Tries.firstHead.stuck (hshape.stalls h)
      · exact (Tries.firstTail (hshape.fails hfails)).stuck (hnext.stalls h)

/-- Pairs are explained one behind the other. -/
theorem explains_pairs (hpair : language.Explains room (.all [delimiter, item])) :
    language.Explains room (.pairs item delimiter) where
  takes {start trees stop} h := by
    induction hn : start.remaining using Nat.strongRecOn generalizing start trees with
    | ind n ih =>
      rcases takes_pairs.mp h with ⟨hfails, _, rfl⟩ | ⟨found, middle, more, hfound, hlt, hmore, _⟩
      · exact ⟨[], .pairsEnd (hpair.fails hfails)⟩
      · obtain ⟨found', hfound⟩ := hpair.takes hfound
        obtain ⟨more', hmore⟩ := ih _ (hn ▸ hlt) hmore rfl
        exact ⟨_, .pairsNext hfound hmore⟩
  fails h := absurd h not_fails_pairs
  stalls {start} h := by
    induction hn : start.remaining using Nat.strongRecOn generalizing start with
    | ind n ih =>
      rcases stalls_pairs.mp h with h | ⟨found, middle, hfound, h⟩
      · exact Tries.pair.stuck (hpair.stalls h)
      · obtain ⟨found', hfound⟩ := hpair.takes hfound
        rcases hfound.le.eq_or_lt with rfl | hlt
        · -- The pair has taken nothing.
          exact ⟨0, item, delimiter, start, found', .here, by rwa [Nat.cast_zero, tsub_zero]⟩
        · have hlt := (Cursor.remaining_lt_iff hlt.le).mpr hlt
          exact (Tries.nextPair hfound).stuck (ih _ (hn ▸ hlt) (h hlt) rfl)

/-- A row of items is explained, with or without a delimiter at its end. -/
theorem explains_items {trailing : Bool} (hitem : language.Explains room (.shape item))
    (hdelimiter : language.Explains room (.shape delimiter)) :
    language.Explains room (.items item delimiter trailing) := by
  -- All that is tried below are the item, the delimiter and the pairs of both.
  have hpairs : language.Explains room (.pairs item delimiter) := by
    refine explains_pairs (explains_all fun shape hshape => ?_)
    simp only [List.mem_cons, List.not_mem_nil, or_false] at hshape
    rcases hshape with rfl | rfl
    · exact hdelimiter
    · exact hitem
  have hfails : ∀ {start},
      (language.taskMatcher room (.items item delimiter trailing)).Fails start →
      language.Evaluates room (.items item delimiter trailing) start .failed := by
    intro start h
    cases trailing with
    | false => exact .itemsFail (hitem.fails (fails_items.mp h))
    | true => exact .itemsFail (hitem.fails (fails_items.mp (fails_items_trailing.mp h)))
  have hstalls : ∀ {start trailing},
      (language.taskMatcher room (.items item delimiter false)).Stalls start →
      language.Stuck room (.items item delimiter trailing) start := by
    intro start trailing h
    rcases stalls_items.mp h with h | ⟨found, middle, hfound, h⟩
    · exact Tries.item.stuck (hitem.stalls h)
    · obtain ⟨found', hfound⟩ := hitem.takes hfound
      exact (Tries.pairs hfound).stuck (hpairs.stalls h)
  cases trailing with
  | false =>
    refine ⟨fun h => ?_, hfails, hstalls⟩
    obtain ⟨found, middle, more, hfound, hmore, _⟩ := takes_items.mp h
    obtain ⟨found', hfound⟩ := hitem.takes hfound
    obtain ⟨more', hmore⟩ := hpairs.takes hmore
    exact ⟨_, .items hfound hmore⟩
  | true =>
    refine ⟨fun h => ?_, hfails, fun h => ?_⟩
    · obtain ⟨trees, after, hitems, h⟩ := takes_items_trailing.mp h
      obtain ⟨found, middle, more, hfound, hmore, _⟩ := takes_items.mp hitems
      obtain ⟨found', hfound⟩ := hitem.takes hfound
      obtain ⟨more', hmore⟩ := hpairs.takes hmore
      rcases h with ⟨last, hlast, _⟩ | ⟨hlast, rfl, _⟩
      · obtain ⟨last', hlast⟩ := hdelimiter.takes hlast
        exact ⟨_, .itemsTrailing hfound hmore hlast⟩
      · exact ⟨_, .itemsNoTrailing hfound hmore (hdelimiter.fails hlast)⟩
    · rcases stalls_items_trailing.mp h with h | ⟨trees, after, hitems, h⟩
      · exact hstalls h
      · obtain ⟨found, middle, more, hfound, hmore, _⟩ := takes_items.mp hitems
        obtain ⟨found', hfound⟩ := hitem.takes hfound
        obtain ⟨more', hmore⟩ := hpairs.takes hmore
        exact (Tries.trailing hfound hmore).stuck (hdelimiter.stalls h)

/-- A shape is explained if the terms in it are. -/
theorem explains_shape (hterm : ∀ index, language.Explains room (.term index)) (shape : Shape) :
    language.Explains room (.shape shape) := by
  induction shape with
  | empty => exact explains_nothing (by rw [taskMatcher, matcher]) fun _ => .empty
  | hint hint => exact explains_nothing (by rw [taskMatcher, matcher]) fun _ => .hint
  | term index =>
    refine explains_same ?_ (fun _ _ => .reference) (fun _ => .reference) (hterm index)
    rw [taskMatcher, taskMatcher, matcher]
  | sequence items ih =>
    refine explains_same ?_ (fun _ _ => .sequence) (fun _ => .sequence) (explains_all ih)
    rw [taskMatcher, matcher, taskMatcher]
  | choice alternatives ih =>
    cases alternatives with
    | nil =>
      exact explains_nothing (by rw [taskMatcher, matcher, matchFirst]) fun _ => .noAlternative
    | cons shape others =>
      refine explains_same ?_ (fun _ _ => .choice) (fun _ => .choice) (explains_first ih)
      rw [taskMatcher, matcher, taskMatcher]
  | repeated item bounds ihItem =>
    have hempty : language.Explains room (.shape .empty) :=
      explains_nothing (by rw [taskMatcher, matcher]) fun _ => .empty
    exact explains_orNothing taskMatcher_repeated (fun _ _ => .repeated) (fun _ => .repeated)
      (explains_items ihItem hempty)
  | separated item delimiter bounds ihItem ihDelimiter =>
    exact explains_orNothing taskMatcher_separated (fun _ _ => .separated) (fun _ => .separated)
      (explains_items ihItem ihDelimiter)

/-- All tasks are explained, if all terms are. -/
theorem explains_task (hterm : ∀ index, language.Explains room (.term index)) (task : Task) :
    language.Explains room task := by
  have hshape := explains_shape hterm
  cases task with
  | term index => exact hterm index
  | shape shape => exact hshape shape
  | all shapes => exact explains_all fun s _ => hshape s
  | first shape others => exact explains_first fun s _ => hshape s
  | items item delimiter trailing => exact explains_items (hshape item) (hshape delimiter)
  | pairs item delimiter => exact explains_pairs (explains_all fun s _ => hshape s)

end Shapes

/-- **Soundness of the engine.**  What the matcher of any task does is explained by ordered choice
with the same room for open rules. -/
theorem explains (language : Language) (room : ℕ) (task : Task) : language.Explains room task := by
  induction room generalizing task with
  | zero =>
    refine explains_task (fun _ => explains_term fun below h shape => ?_) task
    exact absurd h (Nat.succ_ne_zero below).symm
  | succ below ih =>
    refine explains_task (fun _ => explains_term fun below' h shape => ?_) task
    obtain rfl := Nat.succ.inj h
    exact ih (.shape shape)

end Language

end TypedGrammar
