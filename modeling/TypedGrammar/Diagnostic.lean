/-!
# Locations, messages and errors

Where something is in a source, what is said about it and how serious it is, and everything that can
go wrong while a grammar is built, a text is parsed or a value is read.
-/

namespace TypedGrammar

/-! ## Lines of a text

A `LineTable` stores where the lines of a text begin, so that an offset can be shown as a line and
a column. Only a line feed ends a line; a carriage return before it stays part of the line. -/

/-- A zero-based line, and a zero-based column counted in UTF-8 bytes. -/
structure LinePosition where
  line : Nat
  column : Nat
  deriving DecidableEq, Repr

/-- The byte offsets at which the lines of one text begin, and the length of the text in bytes. -/
structure LineTable where
  starts : List Nat
  length : Nat
  deriving DecidableEq, Repr

namespace LineTable

/-- The offsets that follow a line feed, for characters that stand from `offset` on. -/
def startsAfter (offset : Nat) : List Char → List Nat
  | [] => []
  | c :: rest =>
    if c = '\n' then (offset + 1) :: startsAfter (offset + 1) rest
    else startsAfter (offset + c.utf8Size) rest

/-- The line table of `text`: the first line begins at 0, each other one after a line feed. -/
def ofText (text : String) : LineTable where
  starts := 0 :: startsAfter 0 text.toList
  length := text.utf8ByteSize

/-- The number of lines; a text without a line feed has one. -/
def lineCount (table : LineTable) : Nat :=
  table.starts.length

/-- The line and column of an offset; an offset past the end counts as the end. -/
def position (table : LineTable) (offset : Nat) : LinePosition :=
  let clamped := min offset table.length
  let line := (table.starts.takeWhile (· ≤ clamped)).length - 1
  ⟨line, clamped - table.starts.getD line 0⟩

end LineTable

/-! ## Locations -/

/-- A position in the text called `source`: zero-based line and column, and byte offset. -/
structure Location where
  line : Nat
  column : Nat
  offset : Nat
  source : String
  deriving DecidableEq, Repr

namespace Location

/-- The location of a byte offset, its line and column taken from the line table of the source. -/
def resolve (table : LineTable) (offset : Nat) (source : String) : Location :=
  let position := table.position offset
  ⟨position.line, position.column, offset, source⟩

/-- `source:line:column`, with line and column counted from one. -/
def display (location : Location) : String :=
  s!"{location.source}:{location.line + 1}:{location.column + 1}"

end Location

/-! ## Messages

Messages with a severity. An operation that is run with a threshold fails when one of its messages
reaches the threshold; a critical message reaches every threshold. -/

/-- How serious a message is, from the least to the most serious. -/
inductive Severity
  | info
  | warning
  | error
  | critical
  deriving DecidableEq, Repr

namespace Severity

/-- The threshold of an operation that names none. -/
def default : Severity := .error

/-- The place of a severity in the order from least to most serious. -/
def rank : Severity → Nat
  | .info => 0
  | .warning => 1
  | .error => 2
  | .critical => 3

/-- Whether a message of this severity fails an operation run with `threshold`. -/
def reaches (severity threshold : Severity) : Bool :=
  threshold.rank ≤ severity.rank || severity = .critical

/-- The name of a severity in logs. -/
def display : Severity → String
  | .info => "Info"
  | .warning => "Warning"
  | .error => "Error"
  | .critical => "Critical"

end Severity

/-- One message; those about a source text carry a location. -/
structure Diagnostic where
  severity : Severity
  message : String
  location : Option Location := none
  deriving DecidableEq, Repr

namespace Diagnostic

/-- `[Error] message`, or `[Error@3:14] message` when located. -/
def display (diagnostic : Diagnostic) : String :=
  match diagnostic.location with
  | some l => s!"[{diagnostic.severity.display}@{l.line + 1}:{l.column + 1}] {diagnostic.message}"
  | none => s!"[{diagnostic.severity.display}] {diagnostic.message}"

/-- One line for each message. -/
def log (diagnostics : List Diagnostic) : String :=
  "\n".intercalate (diagnostics.map display)

/-- The first message of the highest severity. -/
def worst : List Diagnostic → Option Diagnostic
  | [] => none
  | d :: rest =>
    match worst rest with
    | some best => if d.severity.rank < best.severity.rank then some best else some d
    | none => some d

/-- Whether some message fails an operation run with `threshold`. -/
def anyReaches (threshold : Severity) (diagnostics : List Diagnostic) : Bool :=
  diagnostics.any (·.severity.reaches threshold)

end Diagnostic

/-! ## Errors -/

/-- The reasons for which an operation of this library fails. -/
inductive Error
  /-- Two registrations under one name disagree. -/
  | registrationConflict (name existing requested : String)
  /-- A grammar was rejected; `table` is its rule table. -/
  | grammarBuild (grammar : String) (diagnostics : List Diagnostic) (table : String)
  /-- A source was rejected, at the location of its most severe message. -/
  | parse (location : Location) (diagnostics : List Diagnostic)
  /-- An operation was used when it cannot be. -/
  | invalidState (message : String)
  /-- A value or node was read as another type than its own. -/
  | typeMismatch (expected found : String)
  /-- A rule could not be described. -/
  | rule (rule message : String)
  /-- A node type refused the children of one occurrence. -/
  | node (location : Location) (message : String)
  deriving DecidableEq, Repr

namespace Error

/-- The rejection of a source: located where the most severe message is, or at `fallback` when
that message has no location. -/
def rejected (diagnostics : List Diagnostic) (fallback : Location) : Error :=
  .parse (((Diagnostic.worst diagnostics).bind (·.location)).getD fallback) diagnostics

/-- The rejection of a source for one reason at one place. -/
def rejectedAt (location : Location) (message : String) : Error :=
  rejected [⟨.error, message, some location⟩] location

/-- Where the error is, for errors about one place of a source. -/
def location? : Error → Option Location
  | .parse location _ => some location
  | .node location _ => some location
  | _ => none

/-- The text shown for an error. -/
def message : Error → String
  | .registrationConflict name existing requested =>
    s!"conflicting registrations for `{name}`: {existing} vs {requested}"
  | .grammarBuild grammar diagnostics table =>
    s!"failed to build grammar `{grammar}`:\n{Diagnostic.log diagnostics}\n{table}"
  | .parse location diagnostics =>
    s!"failed to parse {location.display}:\n{Diagnostic.log diagnostics}"
  | .invalidState text => s!"invalid state: {text}"
  | .typeMismatch expected found =>
    s!"type mismatch: expected `{expected}`, found `{found}`"
  | .rule name text => s!"invalid rule `{name}`: {text}"
  | .node location text => s!"{location.display}: {text}"

end Error

/-! ## Steps that may fail

Two steps one after the other succeed if both do, and fail with the failure of one of them. -/

variable {α β : Type} {x : Except Error α} {b : β} {e : Error}

/-- A step that succeeds is followed by the next one. -/
theorem ok_bind (a : α) (f : α → Except Error β) : (Except.ok a >>= f) = f a :=
  rfl

/-- A failure of two steps is a failure of one of them. -/
theorem bind_eq_error {f : α → Except Error β} (h : x >>= f = .error e) :
    x = .error e ∨ ∃ a, x = .ok a ∧ f a = .error e := by
  cases x with
  | error e' =>
    obtain rfl : e' = e := Except.error.inj h
    exact Or.inl rfl
  | ok a => exact Or.inr ⟨a, rfl, h⟩

/-- Two steps that succeed do so one after the other. -/
theorem bind_eq_ok {f : α → Except Error β} (h : x >>= f = .ok b) :
    ∃ a, x = .ok a ∧ f a = .ok b := by
  cases x with
  | error e => cases h
  | ok a => exact ⟨a, rfl, h⟩

theorem map_eq_ok {f : α → β} (h : x.map f = .ok b) : ∃ a, x = .ok a ∧ f a = b := by
  cases x with
  | error e => cases h
  | ok a => exact ⟨a, rfl, Except.ok.inj h⟩

end TypedGrammar
