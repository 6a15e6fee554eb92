import TypedGrammar.Grammar.Reading
import TypedGrammar.Language.Diagnosis
import TypedGrammar.Matching.Parse
import TypedGrammar.Rule.Basic

/-!
# Grammars

A grammar is described once, built once, and then used for any number of texts.
-/

namespace TypedGrammar

/-- The description of a grammar: a family of node types, the number of the root among them, and
the comments. -/
structure GrammarDescription where
  name : String
  types : Array NodeDeclaration
  root : Nat
  comments : List Comment

/-- A grammar that can parse: a language, and the makers of its terms. -/
structure BuiltGrammar where
  language : Language
  makers : Array (Option Maker)

/-- The language of what is registered. -/
def Draft.toLanguage (draft : Draft) (name : String) (root : TermIndex)
    (comments : List Comment) : Language :=
  ⟨name, draft.terms, draft.keyTerms, root, comments⟩

/-- Completes a draft into a grammar that can parse. -/
def Draft.complete (draft : Draft) (name : String) (root : TermIndex)
    (comments : List Comment) : BuiltGrammar :=
  ⟨draft.toLanguage name root comments, draft.entries.map (·.maker)⟩

/-- Runs a step on a draft: its result, and the draft after it. -/
def Drafting.runOn {α : Type} (step : Drafting α) (draft : Draft) :
    Except Error α × Draft :=
  step.run.run draft

namespace GrammarDescription

/-- Registers everything to which the root refers. -/
def compile (description : GrammarDescription) : Except Error BuiltGrammar :=
  match (Drafting.defineNode description.types description.root).runOn .empty with
  | (.ok root, draft) => .ok (draft.complete description.name root description.comments)
  | (.error e, _) => .error e

end GrammarDescription

/-- A grammar, built or not yet. -/
structure Grammar where
  description : GrammarDescription
  built : Option BuiltGrammar := none

namespace Grammar

/-- Whether the grammar is built. -/
def isBuilt (grammar : Grammar) : Bool :=
  grammar.built.isSome

/-- The language of a built grammar. -/
def language? (grammar : Grammar) : Option Language :=
  grammar.built.map (·.language)

/-- Builds a grammar whose checks yield no message that reaches the threshold. The result is whether
it was built now; a grammar that is built stays as it is, and one that is refused stays unbuilt. -/
def build (grammar : Grammar) (threshold : Severity) : Except Error Bool × Grammar :=
  if grammar.isBuilt then (.ok false, grammar)
  else
    match grammar.description.compile with
    | .error e => (.error e, grammar)
    | .ok built =>
      let diagnostics := built.language.diagnose
      if Diagnostic.anyReaches threshold diagnostics then
        let table := built.language.ruleTable
        (.error (.grammarBuild grammar.description.name diagnostics table), grammar)
      else (.ok true, { grammar with built := some built })

/-- The grammar for use, which must be built. -/
def use (grammar : Grammar) : Except Error BuiltGrammar :=
  match grammar.built with
  | some built => .ok built
  | none => .error (.invalidState
      s!"grammar `{grammar.description.name}` must be built before parsing")

/-- The error about a text with which matching would never end. -/
def endless (grammar : Grammar) : Error :=
  .invalidState s!"grammar `{grammar.description.name}` repeats nothing forever"

/-- The message of an error in a text. -/
def diagnosticOf (lines : LineTable) (source : String) (e : TextError) : Diagnostic :=
  ⟨.error, e.message, some (.resolve lines e.start source)⟩

/-- Whether a node is an occurrence of the root type. -/
def isRoot (grammar : Grammar) (node : Node) : Bool :=
  match grammar.description.types[grammar.description.root]? with
  | some type => node.kind = .declared type.identity
  | none => false

/-- The root node of the concrete tree of a text. -/
def rootNode (grammar : Grammar) (reading : Reading) (tree : Tree) : Except Error Node := do
  match ← reading.document tree with
  | none => throw (.invalidState "root rule produced no value")
  | some node =>
    if grammar.isRoot node then return node
    else throw (.invalidState
      s!"root value is {node.payloadType.name} instead of the root node type")

/-- Parses a text called `source` into the node of the root type. It is refused if it has no tree
or if one of its messages reaches the threshold. -/
def parse (grammar : Grammar) (text source : String) (threshold : Severity) :
    Except Error Node := do
  let built ← grammar.use
  let lines := LineTable.ofText text
  match built.language.parse? text with
  | none => throw grammar.endless
  | some parse =>
    let diagnostics := parse.errors.map (diagnosticOf lines source)
    let refusal := Error.rejected diagnostics (.resolve lines 0 source)
    match parse.tree with
    | none => throw refusal
    | some tree =>
      if Diagnostic.anyReaches threshold diagnostics then throw refusal
      else grammar.rootNode ⟨built.language, built.makers, lines, source⟩ tree

/-- The concrete tree of a text, or its errors, as text. -/
def treeText (grammar : Grammar) (text : String) : Except Error String := do
  let built ← grammar.use
  match built.language.parse? text with
  | none => throw grammar.endless
  | some parse => return built.language.displayParse parse

end Grammar

end TypedGrammar
