import TypedGrammar.Term.Attributes

/-!
# Concrete trees

What a text was matched as: tokens with their text, including the trivia between them, and a node
for each rule that is not spliced into its parent.
-/

namespace TypedGrammar

/-- What a part of a tree stands for. -/
inductive TreeKind
  | term (index : TermIndex)
  /-- The root of a tree. -/
  | document
  /-- White space and comments. -/
  | trivia
  deriving DecidableEq, Repr

namespace TreeKind

/-- The number of a kind: terms have their own number, and the two above them are taken by the
document and by trivia. -/
def number : TreeKind → Nat
  | term index => index.value
  | document => termLimit
  | trivia => termLimit + 1

/-- The kind of a number. -/
def ofNumber? (n : Nat) : Option TreeKind :=
  match TermIndex.ofNat? n with
  | some index => some (term index)
  | none =>
    if n = termLimit then some document
    else if n = termLimit + 1 then some trivia
    else none

/-- The term of a kind, if it stands for one. -/
def term? : TreeKind → Option TermIndex
  | term index => some index
  | _ => none

end TreeKind

/-- A concrete tree. -/
inductive Tree
  | token (kind : TreeKind) (text : String)
  | node (kind : TreeKind) (children : List Tree)

namespace Tree

/-- The kind of the root of a tree. -/
def kind : Tree → TreeKind
  | token kind _ => kind
  | node kind _ => kind

/-- Whether the tree is a token of trivia. -/
def isTrivia (tree : Tree) : Bool :=
  tree.kind = .trivia

mutual

/-- The texts of all tokens, one after the other. -/
def text : Tree → String
  | token _ text => text
  | node _ children => textOfAll children

/-- The texts of all tokens of a list of trees. -/
def textOfAll : List Tree → String
  | [] => ""
  | tree :: rest => tree.text ++ textOfAll rest

end

mutual

/-- The length of the text of a tree, in UTF-8 bytes. -/
def byteLength : Tree → Nat
  | token _ text => text.utf8ByteSize
  | node _ children => byteLengthOfAll children

/-- The length of the text of a list of trees, in UTF-8 bytes. -/
def byteLengthOfAll : List Tree → Nat
  | [] => 0
  | tree :: rest => tree.byteLength + byteLengthOfAll rest

end

mutual

/-- The offset of the first token that is not trivia, for a tree that begins at `offset`. -/
def firstToken? (offset : Nat) : Tree → Option Nat
  | token kind _ => if kind = .trivia then none else some offset
  | node _ children => firstTokenOfAll? offset children

/-- The offset of the first token that is not trivia, for trees that follow each other. -/
def firstTokenOfAll? (offset : Nat) : List Tree → Option Nat
  | [] => none
  | tree :: rest =>
    match tree.firstToken? offset with
    | some found => some found
    | none => firstTokenOfAll? (offset + tree.byteLength) rest

end

/-- Puts a tree below a number of document nodes. -/
def wrap (tree : Tree) : Nat → Tree
  | 0 => tree
  | n + 1 => node .document [wrap tree n]

end Tree

end TypedGrammar
