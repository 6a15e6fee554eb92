import TypedGrammar.Matching.Token

/-!
# Matching rules

Rules are matched by ordered choice: alternatives are tried in order from the same place, and
repetitions take as much as they can. Rules that are open at the same time may nest only so deep;
input that needs more is refused.
-/

namespace TypedGrammar

/-- How many rules may be open at once. -/
def nestingLimit : Nat := 256

/-- The message about input that needs more open rules. -/
def nestingMessage : String :=
  s!"input nests deeper than {nestingLimit} rules"

namespace Shape

open Matcher

/-- One item, then a delimiter and an item as often as possible; the trees of all of them. -/
def matchRepeated (item delimiter : Matcher (List Tree)) : Matcher (List Tree) := do
  let first ← item
  let rest ← many do
    let between ← delimiter
    return between ++ (← item)
  return first ++ rest.flatten

/-- A repetition with one more delimiter, if it may be trailing and is there. -/
def matchTrailing (allowed : Bool) (items delimiter : Matcher (List Tree)) :
    Matcher (List Tree) :=
  if allowed then do
    let trees ← items
    let trailing ← Matcher.optional delimiter
    return trees ++ trailing.getD []
  else items

/-- A repetition, or nothing, if it may be empty. -/
def matchOrNothing (allowed : Bool) (items : Matcher (List Tree)) : Matcher (List Tree) :=
  if allowed then do
    let trees ← Matcher.optional items
    return trees.getD []
  else items

mutual

/-- The trees of what a shape matches, given how terms are matched. -/
def matcher (term : TermIndex → Matcher (List Tree)) : Shape → Matcher (List Tree)
  | .empty => succeed []
  | .hint _ => succeed []
  | .term index => term index
  | .sequence items => matchAll term items
  | .choice alternatives => matchFirst term alternatives
  | .repeated item bounds =>
    let item := matcher term item
    matchOrNothing bounds.allowEmpty (matchRepeated item (succeed []))
  | .separated item delimiter bounds =>
    let item := matcher term item
    let delimiter := matcher term delimiter
    matchOrNothing bounds.allowEmpty
      (matchTrailing bounds.allowTrailing (matchRepeated item delimiter) delimiter)

/-- All shapes of a list, one after the other. -/
def matchAll (term : TermIndex → Matcher (List Tree)) : List Shape → Matcher (List Tree)
  | [] => succeed []
  | shape :: rest =>
    andThen (matcher term shape) fun trees =>
    andThen (matchAll term rest) fun more => succeed (trees ++ more)

/-- The first shape of a list that matches; without shapes nothing is matched. -/
def matchFirst (term : TermIndex → Matcher (List Tree)) : List Shape → Matcher (List Tree)
  | [] => succeed []
  | [shape] => matcher term shape
  | shape :: rest => orElse (matcher term shape) (matchFirst term rest)

end

end Shape

namespace Language

open Matcher

/-- The trees of a rule: one node, or what it matched if the rule is transient. -/
def ruleTrees (index : TermIndex) (term : Term) (children : List Tree) : List Tree :=
  if term.flags.has .transient then children else [.node (.term index) children]

/-- The trees of a term, while `room` more rules may be opened. -/
def matchTerm (language : Language) (lexicon : Lexicon) :
    Nat → TermIndex → Matcher (List Tree)
  | room, index =>
    match language.term? index with
    | none => fail s!"unknown term {index.display}"
    | some term =>
      match tokenText? lexicon term.kind with
      | some token => terminal lexicon.comments index token
      | none =>
        match term.shape? with
        | none => fail s!"rule `{term.name}` is not defined"
        | some shape =>
          match room with
          | 0 => fail nestingMessage
          | room + 1 =>
            andThen (shape.matcher (matchTerm language lexicon room)) fun children =>
              succeed (ruleTrees index term children)

/-- A whole text: the root, trivia, and the end of the input. -/
def matchDocument (language : Language) : Matcher Tree :=
  let lexicon := language.lexicon
  andThen (language.matchTerm lexicon nestingLimit language.root) fun children => do
    let skipped ← trivia lexicon.comments
    atEnd
    return .node .document (children ++ triviaTokens skipped)

end Language

end TypedGrammar
