import TypedGrammar.Language.Basic
import TypedGrammar.Matching.Rule

/-!
# Parses

What becomes of a text under a language: its concrete tree, or the failure that got furthest; and
how both are shown.
-/

namespace TypedGrammar

/-! ## Trees as text

One line for each part of a tree, below its parent and indented by one space; trivia is left out. -/

/-- The indentation of a depth. -/
def indent (depth : Nat) : String :=
  String.ofList (List.replicate depth (Char.ofNat 32))

namespace Language

/-- Whether a tree has parts that are shown. -/
def hasShownParts (children : List Tree) : Bool :=
  children.any (!·.isTrivia)

mutual

/-- The lines of a tree at a depth. A node without parts is shown as empty, and nothing is shown
inside a node that lies deeper than rules can nest. -/
def treeLines (language : Language) (depth : Nat) : Tree → String
  | .token kind text =>
    if kind = .trivia then ""
    else s!"{indent depth}{Text.quoted (language.nameOf kind)} = {Text.quoted text},\n"
  | .node kind children =>
    if kind = .trivia then ""
    else
      let name := indent depth ++ Text.quoted (language.nameOf kind)
      if !hasShownParts children then name ++ " = \"<empty>\",\n"
      else if nestingLimit < depth then name ++ " = \"<elided>\",\n"
      else
        name ++ " = \x7b\n" ++ treeLinesOfAll language (depth + 1) children
          ++ indent depth ++ "\x7d,\n"

/-- The lines of each tree of a list. -/
def treeLinesOfAll (language : Language) (depth : Nat) : List Tree → String
  | [] => ""
  | tree :: rest => treeLines language depth tree ++ treeLinesOfAll language depth rest

end

/-- A tree as text. -/
def displayTree (language : Language) (tree : Tree) : String :=
  language.treeLines 0 tree

end Language

/-! ## Parses -/

/-- Why a text is not accepted: a message about a range of bytes. -/
structure TextError where
  message : String
  start : Nat
  stop : Nat
  deriving DecidableEq, Repr

/-- What becomes of a text: a tree, errors, or both. -/
structure Parse where
  tree : Option Tree
  errors : List TextError

/-- The number of bytes of the first `count` characters. -/
def byteOffset (text : List Char) (count : Nat) : Nat :=
  (text.take count).foldr (fun c size => c.utf8Size + size) 0

/-- The error that a failure is shown as. -/
def Failure.toTextError (failure : Failure) (text : List Char) : TextError :=
  let start := byteOffset text failure.start
  ⟨failure.message, start, max start (byteOffset text failure.stop)⟩

namespace Language

/-- Matches a whole text. There is no result if a repetition of nothing would go on forever. -/
def parse? (language : Language) (text : String) : Option Parse :=
  match language.matchDocument (Cursor.start text.toList) with
  | .matched tree _ _ => some ⟨some tree, []⟩
  | .failed failure => some ⟨none, [failure.toTextError text.toList]⟩
  | .stalled => none

/-- The line of an error. -/
def displayError (e : TextError) : String :=
  s!"error {e.start}..{e.stop}: {e.message}\n"

/-- A parse as text: its tree, or its errors if there is no tree. -/
def displayParse (language : Language) (parse : Parse) : String :=
  match parse.tree with
  | some tree => language.displayTree tree
  | none => String.join (parse.errors.map displayError)

end Language

end TypedGrammar
