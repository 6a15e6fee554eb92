import TypedGrammar.Text.Quoted

/-!
# Matchers

A matcher takes a first part of the remaining text, or fails. A match may remember the failure of
an attempt that was given up, which is shown if what follows does not get further.
-/

namespace TypedGrammar

/-! ## Cursors -/

/-- A place in a text. The number of remaining characters is kept, so that progress is cheap to
see. -/
structure Cursor where
  index : Nat
  rest : List Char
  remaining : Nat
  remaining_eq : remaining = rest.length

namespace Cursor

/-- The beginning of a text. -/
def start (text : List Char) : Cursor :=
  ⟨0, text, text.length, rfl⟩

/-- The first remaining character and the place after it. -/
def next? (cursor : Cursor) : Option (Char × Cursor) :=
  match cursor with
  | ⟨index, c :: rest, remaining, h⟩ =>
    some (c, ⟨index + 1, rest, remaining - 1, by rw [h, List.length_cons, Nat.add_sub_cancel]⟩)
  | ⟨_, [], _, _⟩ => none

/-- One character fewer remains after the next one. -/
theorem remaining_of_next? {cursor next : Cursor} {c : Char} (h : cursor.next? = some (c, next)) :
    next.remaining < cursor.remaining := by
  obtain ⟨index, rest, remaining, eq⟩ := cursor
  cases rest with
  | nil => simp [next?] at h
  | cons d rest =>
    simp only [next?, Option.some.injEq, Prod.mk.injEq] at h
    obtain ⟨_, rfl⟩ := h
    simp only [eq, List.length_cons]
    omega

/-- The end of the span from one place to another, in characters. A match of nothing spans the
next character, if there is one. -/
def spanEnd (start stop : Cursor) : Nat :=
  if start.index < stop.index then stop.index else start.index + min 1 start.remaining

/-- The text of the span from one place to another. -/
def spanText (start stop : Cursor) : String :=
  String.ofList (start.rest.take (spanEnd start stop - start.index))

end Cursor

/-! ## Failures

Why a text does not match at some place. Of several failures the one that got furthest is shown;
failures at the same place are joined, which collects the characters that were expected there. -/

/-- The reason of a failure. -/
inductive Reason
  /-- Another character was found than the ones that were expected. -/
  | unexpected
  | custom (message : String)
  deriving DecidableEq, Repr

/-- A failure at a place, with a span of characters to point at. Among the expected characters,
`none` is the end of the input; so it is as the character found. -/
structure Failure where
  position : Nat
  start : Nat
  stop : Nat
  reason : Reason
  expected : List (Option Char)
  found : Option Char
  deriving DecidableEq, Repr

namespace Failure

/-- The failure at the next character, where the given ones were expected. -/
def unexpectedAt (cursor : Cursor) (expected : List (Option Char)) : Failure where
  position := cursor.index
  start := cursor.index
  stop := cursor.index + min 1 cursor.remaining
  reason := .unexpected
  expected := expected
  found := cursor.rest.head?

/-- The refusal of what was matched between two places. -/
def refused (start stop : Cursor) (message : String) : Failure where
  position := stop.index
  start := start.index
  stop := start.spanEnd stop
  reason := .custom message
  expected := []
  found := none

/-- The failure that got further; at the same place the first, joined with what the second
expected. -/
def further (e f : Failure) : Failure :=
  if e.position < f.position then f
  else if f.position < e.position then e
  else { e with expected := e.expected ++ f.expected.filter (!e.expected.contains ·) }

/-- The further of a failure and one that may have been remembered. -/
def furtherThan (e : Failure) (remembered : Option Failure) : Failure :=
  match remembered with
  | some f => e.further f
  | none => e

/-- Joins two failures that may have been remembered, the later one first. -/
def remember (earlier later : Option Failure) : Option Failure :=
  match later with
  | some e => some (e.furtherThan earlier)
  | none => earlier

/-- One of the expected or found characters in a message. -/
def displayChar : Option Char → String
  | some c => Text.quotedChar c
  | none => "end of input"

/-- The message of a failure. -/
def message (failure : Failure) : String :=
  match failure.reason with
  | .custom message => message
  | .unexpected =>
    let expected := ((failure.expected.map displayChar).eraseDups.mergeSort)
    let found := displayChar failure.found
    if expected.isEmpty then s!"unexpected {found}"
    else "expected " ++ " or ".intercalate expected ++ s!", found {found}"

end Failure

/-! ## Matchers -/

/-- What becomes of a match. -/
inductive Outcome (α : Type)
  /-- The match ended at `stop`. -/
  | matched (value : α) (stop : Cursor) (remembered : Option Failure)
  | failed (failure : Failure)
  /-- A repetition matched nothing and would do so forever. -/
  | stalled

/-- A way to match a first part of the remaining text. -/
def Matcher (α : Type) : Type := Cursor → Outcome α

namespace Matcher

variable {α β : Type}

/-! ### Sequence and choice -/

/-- Matches nothing, with a given value. -/
def succeed (value : α) : Matcher α := fun start =>
  .matched value start none

/-- Fails with a message. -/
def fail (message : String) : Matcher α := fun start =>
  .failed (.refused start start message)

/-- One match after the other, the second depending on the value of the first. -/
def andThen (p : Matcher α) (q : α → Matcher β) : Matcher β := fun start =>
  match p start with
  | .matched a middle earlier =>
    match q a middle with
    | .matched b stop later => .matched b stop (Failure.remember earlier later)
    | .failed e => .failed (e.furtherThan earlier)
    | .stalled => .stalled
  | .failed e => .failed e
  | .stalled => .stalled

instance : Monad Matcher where
  pure := succeed
  bind := andThen

/-- The first of two matchers that matches. The failure of the first is forgotten when the second
matches. -/
def orElse (p q : Matcher α) : Matcher α := fun start =>
  match p start with
  | .failed e =>
    match q start with
    | .failed f => .failed (e.further f)
    | outcome => outcome
  | outcome => outcome

/-- The first of several matchers that matches, tried before a last one. -/
def firstOr (last : Matcher α) (ps : List (Matcher α)) : Matcher α :=
  ps.foldr orElse last

/-- A match, or nothing where there is none; then the failure is remembered. -/
def optional (p : Matcher α) : Matcher (Option α) := fun start =>
  match p start with
  | .matched a stop remembered => .matched (some a) stop remembered
  | .failed e => .matched none start (some e)
  | .stalled => .stalled

/-! ### Repetition -/

/-- As many matches as possible, one after the other. A match of nothing stalls. -/
def many (p : Matcher α) (start : Cursor) : Outcome (List α) :=
  match p start with
  | .matched a middle earlier =>
    if middle.remaining < start.remaining then
      match many p middle with
      | .matched as stop later => .matched (a :: as) stop (Failure.remember earlier later)
      | .failed e => .failed (e.furtherThan earlier)
      | .stalled => .stalled
    else .stalled
  | .failed e => .matched [] start (some e)
  | .stalled => .stalled
termination_by start.remaining

/-- Skips characters up to and including the first match. -/
def skipPast (p : Matcher α) (start : Cursor) : Outcome Unit :=
  match p start with
  | .matched _ stop remembered => .matched () stop remembered
  | .failed e =>
    match h : start.next? with
    | none => .failed e
    | some (_, next) =>
      have := Cursor.remaining_of_next? h
      match skipPast p next with
      | .matched _ stop later => .matched () stop (Failure.remember (some e) later)
      | outcome => outcome
  | .stalled => .stalled
termination_by start.remaining

/-! ### Characters -/

/-- One character with a property. -/
def satisfying (p : Char → Bool) (expected : List (Option Char)) : Matcher Char := fun start =>
  match start.next? with
  | some (c, stop) =>
    if p c then .matched c stop none else .failed (.unexpectedAt start expected)
  | none => .failed (.unexpectedAt start expected)

/-- One character with a property; a failure does not say what was expected. -/
def charWhere (p : Char → Bool) : Matcher Char :=
  satisfying p []

/-- One of the given characters. -/
def oneOf (cs : List Char) : Matcher Char :=
  satisfying cs.contains (cs.map some)

/-- Exactly the given characters. -/
def exactly : List Char → Matcher Unit
  | [] => succeed ()
  | c :: rest => andThen (oneOf [c]) fun _ => exactly rest

/-- Exactly the given text. -/
def exactText (text : String) : Matcher Unit :=
  exactly text.toList

/-- The end of the text. -/
def atEnd : Matcher Unit := fun start =>
  match start.rest with
  | [] => .matched () start none
  | _ => .failed (.unexpectedAt start [none])

/-! ### What was matched -/

/-- A match together with the text of its span. -/
def withText (p : Matcher α) : Matcher (α × String) := fun start =>
  match p start with
  | .matched a stop remembered => .matched (a, start.spanText stop) stop remembered
  | .failed e => .failed e
  | .stalled => .stalled

/-- A match whose value is accepted by `check`. A refusal is a failure after the match, and what
was remembered before it is dropped. -/
def checked (p : Matcher α) (check : α → Except String β) : Matcher β := fun start =>
  match p start with
  | .matched a stop remembered =>
    match check a with
    | .ok b => .matched b stop remembered
    | .error message => .failed (.refused start stop message)
  | .failed e => .failed e
  | .stalled => .stalled

end Matcher

end TypedGrammar
