import TypedGrammar.Draft.KeyTerm
import TypedGrammar.Node.Maker
import TypedGrammar.Term.Basic

/-!
# Drafts

Everything that is registered while one grammar is described: its terms, numbered in the order of
registration, and tables that lead from names, declarations and shapes to the terms made for them.
-/

namespace TypedGrammar

/-- A term and how its nodes are made. -/
structure Entry extends Term where
  maker : Option Maker := none

/-- What the rule of a list is made from. -/
structure ListSpec where
  element : ValueType
  item : Shape
  delimiter : Option Shape
  bounds : Bounds
  deriving DecidableEq

/-- What the rule of a brace is made from. -/
structure BraceSpec where
  opening : String
  inside : Shape
  closing : String
  omissible : Bool
  deriving DecidableEq

/-- The state of a grammar under description. Declarations are known by their full names. -/
structure Draft where
  entries : Array Entry
  keyTerms : KeyTermTable
  /-- The terms of declarations. -/
  declared : List (String × TermIndex)
  /-- The declarations that claimed a name. -/
  claims : List (String × String)
  optionals : List (Shape × TermIndex)
  groups : List (Shape × TermIndex)
  lists : List (ListSpec × TermIndex)
  braces : List (BraceSpec × TermIndex)

namespace Draft

/-- The draft in which nothing is registered. -/
def empty : Draft where
  entries := #[]
  keyTerms := .empty
  declared := []
  claims := []
  optionals := []
  groups := []
  lists := []
  braces := []

/-- The entry of an index. -/
def entry? (draft : Draft) (index : TermIndex) : Option Entry :=
  draft.entries[index.value]?

/-- The term of an index. -/
def term? (draft : Draft) (index : TermIndex) : Option Term :=
  (draft.entry? index).map Entry.toTerm

/-- All terms, in the order of their numbers. -/
def terms (draft : Draft) : Array Term :=
  draft.entries.map Entry.toTerm

/-- The draft with one more entry, whatever its number. -/
def pushEntry (draft : Draft) (entry : Entry) : Draft :=
  { draft with entries := draft.entries.push entry }

/-- The draft with the term of an index changed. -/
def modifyTerm (draft : Draft) (index : TermIndex) (change : Term → Term) : Draft :=
  { draft with
    entries := draft.entries.modify index.value fun e => { e with toTerm := change e.toTerm } }

/-- The name that a rule gets from a shape. -/
def label (draft : Draft) (shape : Shape) : String :=
  shape.label draft.term?

end Draft

end TypedGrammar
