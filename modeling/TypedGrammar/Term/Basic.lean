import TypedGrammar.Shape.Basic
import TypedGrammar.Term.Attributes
import TypedGrammar.Text.Quoted

/-!
# Terms

The entries of a grammar: key terms with a fixed text, identifiers, literals, and rules; and shapes
as text, in which terms stand with their names.
-/

namespace TypedGrammar

/-! ## What terms match -/

/-- The forms of literal tokens. -/
inductive LiteralForm
  /-- Decimal digits. -/
  | integer
  /-- Decimal digits with an optional fraction and exponent. -/
  | number
  /-- Text between two `quote` characters, in which a backslash escapes the next character. -/
  | quoted (quote : Char)
  deriving DecidableEq, Repr

/-- The name of a form, with the quote character that it uses. -/
def LiteralForm.display : LiteralForm → String
  | integer => "Integer"
  | number => "Number"
  | quoted quote => "QuotedString \x7b quote: " ++ Text.quotedChar quote ++ " \x7d"

/-- What a term matches. -/
inductive TermKind
  /-- A fixed text: keywords, punctuation, operators and braces. -/
  | key (text : String)
  | identifier (case : LetterCase)
  | literal (form : LiteralForm)
  /-- A rule, whose shape is missing until its definition is complete. -/
  | rule (shape : Option Shape)
  deriving DecidableEq

/-- One entry of a grammar. -/
structure Term where
  name : String
  kind : TermKind
  flags : Flags := Flags.none
  precedence : Option Precedence := none
  deriving DecidableEq

namespace Term

/-- Whether the term matches a single token. -/
def isTerminal (term : Term) : Bool :=
  match term.kind with
  | .rule _ => false
  | _ => true

/-- The text of a key term. -/
def text? (term : Term) : Option String :=
  match term.kind with
  | .key text => some text
  | _ => none

/-- The shape of a rule that is defined. -/
def shape? (term : Term) : Option Shape :=
  match term.kind with
  | .rule shape => shape
  | _ => none

/-- The term as a rule with the given shape. -/
def withShape (term : Term) (shape : Shape) : Term :=
  { term with kind := .rule (some shape) }

theorem isTerminal_of_kind {term : Term} {shape : Option Shape} (h : term.kind = .rule shape) :
    term.isTerminal = false := by
  rw [isTerminal, h]

theorem shape?_of_kind {term : Term} {shape : Option Shape} (h : term.kind = .rule shape) :
    term.shape? = shape := by
  rw [shape?, h]

end Term

/-! ## Shapes as text

Shapes in rule tables and messages, their terms named through the grammar that owns them. -/

/-- The display of a hint. -/
def Hint.display : Hint → String
  | preferShift => "%prefer-shift"
  | preferReduce => "%prefer-reduce"
  | precedence p => s!"%prec({p.display})"
  | shiftIf symbol before => s!"%shift-if({Text.quoted symbol} < " ++ ", ".intercalate before ++ ")"
  | reduceIf symbol before =>
    s!"%reduce-if({Text.quoted symbol} < " ++ ", ".intercalate before ++ ")"

namespace Shape

/-- The display of a reference: the quoted text of a key term, the name of another term, or the
number when the grammar has no such term. -/
def displayTerm (term? : TermIndex → Option Term) (index : TermIndex) : String :=
  match term? index with
  | some entry =>
    match entry.kind with
    | .key text => Text.quoted text
    | _ => entry.name
  | none => index.display

/-- Parentheses around a shape inside another one. -/
def parenthesised (nested : Bool) (text : String) : String :=
  if nested then "(" ++ text ++ ")" else text

/-- The sign after a repetition. -/
def countSign (bounds : Bounds) : String :=
  if bounds.allowEmpty then "*" else "+"

mutual

/-- The display of a shape; sequences and choices inside another shape are parenthesised. -/
def displayWith (term? : TermIndex → Option Term) (nested : Bool) : Shape → String
  | empty => "<empty>"
  | term index => displayTerm term? index
  | sequence items => parenthesised nested (" ".intercalate (displayAll term? items))
  | choice alternatives =>
    parenthesised nested (" | ".intercalate (displayAll term? alternatives))
  | repeated item bounds =>
    "\x7b" ++ displayWith term? true item ++ "\x7d" ++ countSign bounds
  | separated item delimiter bounds =>
    "\x7b" ++ displayWith term? true item ++ " / " ++ displayWith term? true delimiter
      ++ (if bounds.allowTrailing then "?" else "") ++ "\x7d" ++ countSign bounds
  | hint h => h.display

/-- The display of each shape of a list, as a part of another shape. -/
def displayAll (term? : TermIndex → Option Term) : List Shape → List String
  | [] => []
  | shape :: rest => displayWith term? true shape :: displayAll term? rest

end

/-- The display of a shape on its own. -/
def display (term? : TermIndex → Option Term) (shape : Shape) : String :=
  shape.displayWith term? false

/-- The name that a rule gets from a shape: single terms and repetitions as they are shown, any
other shape in parentheses. -/
def label (term? : TermIndex → Option Term) (shape : Shape) : String :=
  match shape with
  | term _ => shape.display term?
  | repeated _ _ => shape.display term?
  | separated _ _ _ => shape.display term?
  | _ => "(" ++ shape.display term? ++ ")"

end Shape

end TypedGrammar
