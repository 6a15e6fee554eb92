import TypedGrammar.Draft.KeyTerm
import TypedGrammar.Term.Basic
import TypedGrammar.Term.Attributes
import TypedGrammar.Text.Word
import TypedGrammar.Tree.Basic

/-!
# Languages

A language is a grammar whose description is complete: its terms, its key terms, the term of its
root, and its comments.
-/

namespace TypedGrammar

/-! ## Terms and names -/

/-- The terms of a complete grammar. -/
structure Language where
  name : String
  terms : Array Term
  keyTerms : KeyTermTable
  root : TermIndex
  comments : List Comment

namespace Language

/-- The term of an index. -/
def term? (language : Language) (index : TermIndex) : Option Term :=
  language.terms[index.value]?

/-- The term that a part of a tree stands for. -/
def termFor? (language : Language) (kind : TreeKind) : Option Term :=
  kind.term?.bind language.term?

/-- The name of the root; a question mark if there is no such term. -/
def rootName (language : Language) : String :=
  match language.term? language.root with
  | some term => term.name
  | none => "?"

/-- The texts of the key terms that are not words, sorted, each once. -/
def symbols (language : Language) : List String :=
  let texts := language.keyTerms.records.toList.map (·.text)
  (texts.filter fun text => !text.isEmpty && !Text.isWord text).eraseDups.mergeSort

/-- The words that cannot be identifiers. -/
def reserved (language : Language) : List String :=
  language.keyTerms.reservedWords

/-- Whether a word cannot be an identifier. -/
def isReserved (language : Language) (word : String) : Bool :=
  language.reserved.contains word

/-- The name of a kind of tree. -/
def nameOf (language : Language) (kind : TreeKind) : String :=
  match language.termFor? kind with
  | some term => term.name
  | none => if kind = .document then "<document>" else "<trivia>"

end Language

/-! ## Rule tables

A language as text: one line for each term, then one for each comment. -/

/-- What a term matches, as the rule table shows it. -/
def TermKind.display (term? : TermIndex → Option Term) : TermKind → String
  | key text => "= " ++ Text.quoted text
  | identifier case => s!"= <identifier {case.display}>"
  | literal form => s!"= <literal {form.display}>"
  | rule (some shape) => "::= " ++ shape.display term?
  | rule none => "::= <undefined>"

namespace Language

/-- A number after its sign, followed by spaces up to the width of the column. -/
def indexColumn (n : Nat) : String :=
  let digits := toString n
  s!"#{digits}" ++ String.ofList (List.replicate (4 - digits.length) ' ')

/-- The line of a term. -/
def ruleLine (language : Language) (n : Nat) (term : Term) : String :=
  let flags := if term.flags.isEmpty then "" else " " ++ term.flags.display
  let precedence :=
    match term.precedence with
    | some p => s!" prec({p.display})"
    | none => ""
  s!"  {indexColumn n} {term.name} {term.kind.display language.term?}{flags}{precedence}\n"

/-- The line of a comment. -/
def commentLine (comment : Comment) : String :=
  s!"  comment {comment.name} {Text.quoted comment.start} .. {Text.quotedList comment.ends}\n"

/-- The lines of terms from a number on. -/
def ruleLines (language : Language) : Nat → List Term → List String
  | _, [] => []
  | n, term :: rest => language.ruleLine n term :: ruleLines language (n + 1) rest

/-- The rule table. -/
def ruleTable (language : Language) : String :=
  s!"grammar `{language.name}` (root: {language.rootName})\n"
    ++ String.join (language.ruleLines 0 language.terms.toList)
    ++ String.join (language.comments.map commentLine)

end Language

end TypedGrammar
