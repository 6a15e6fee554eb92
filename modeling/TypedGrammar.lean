import TypedGrammar.Data.Reader
import TypedGrammar.Grammar.Basic
import TypedGrammar.Node.ListReader
import TypedGrammar.Node.Recipe
import TypedGrammar.Proofs.Matching.Laws
import TypedGrammar.Proofs.Matching.Progress
import TypedGrammar.Proofs.OrderedChoice.Evaluation
import TypedGrammar.Proofs.OrderedChoice.Attempts
import TypedGrammar.Proofs.OrderedChoice.Completeness
import TypedGrammar.Proofs.OrderedChoice.Documents
import TypedGrammar.Proofs.OrderedChoice.NestingLimit
import TypedGrammar.Proofs.Diagnosis.Nullable
import TypedGrammar.Proofs.Diagnosis.Messages
import TypedGrammar.Proofs.Diagnosis.Repetition
import TypedGrammar.Proofs.Diagnosis.CycleSearch
import TypedGrammar.Proofs.Diagnosis.LeftRecursion
import TypedGrammar.Proofs.Tree.Parts
import TypedGrammar.Proofs.Matching.TokenForms
import TypedGrammar.Proofs.Derivation.Basic
import TypedGrammar.Proofs.Derivation.Text
import TypedGrammar.Proofs.Derivation.Conformity
import TypedGrammar.Proofs.Draft.Laws
import TypedGrammar.Proofs.Draft.Extension
import TypedGrammar.Proofs.Draft.Declarations
import TypedGrammar.Proofs.Draft.Calls
import TypedGrammar.Proofs.Draft.Steps
import TypedGrammar.Proofs.Draft.Definitions
import TypedGrammar.Proofs.Draft.Requests
import TypedGrammar.Proofs.Draft.Growth
import TypedGrammar.Proofs.Draft.Runs
import TypedGrammar.Proofs.Grammar.Building
import TypedGrammar.Proofs.Grammar.Reading
import TypedGrammar.Proofs.Grammar.Parsing
import TypedGrammar.Proofs.Grammar.Refusals
import TypedGrammar.Proofs.OrderedChoice.LeadingBlank
import TypedGrammar.Proofs.Grammar.Yields
import TypedGrammar.Proofs.Grammar.Positions
import TypedGrammar.Proofs.Grammar.Lists
import TypedGrammar.Proofs.Grammar.OperatorChains
import TypedGrammar.Proofs.Node.OperatorChain
import TypedGrammar.Proofs.Node.DeclaredTypes
import TypedGrammar.Proofs.Grammar.Locations
import TypedGrammar.Proofs.Matching.Likeness
import TypedGrammar.Proofs.Shape.Likeness
import TypedGrammar.Proofs.Draft.Likeness
import TypedGrammar.Proofs.Draft.Parallel
import TypedGrammar.Proofs.Draft.ParallelCalls
import TypedGrammar.Proofs.Rule.Hints
import TypedGrammar.Proofs.Rule.NodeTypes
import TypedGrammar.Proofs.Grammar.Likeness
import TypedGrammar.Proofs.Grammar.Hints
import TypedGrammar.Proofs.Grammar.Lifecycle
import TypedGrammar.Proofs.Draft.KeyTerms
import TypedGrammar.Proofs.Draft.KeyTermCopies
import TypedGrammar.Proofs.Draft.Interning
import TypedGrammar.Proofs.Rule.Scripts
import TypedGrammar.Proofs.Rule.Performances
import TypedGrammar.Proofs.Draft.Completeness
import TypedGrammar.Proofs.Rule.CompleteDefinitions
import TypedGrammar.Proofs.Node.Folding
import TypedGrammar.Proofs.Number.Integers
import TypedGrammar.Proofs.Calculator.Expressions
import TypedGrammar.Proofs.Calculator.Grammar
import TypedGrammar.Proofs.Grammar.Making
import TypedGrammar.Proofs.OrderedChoice.Chains
import TypedGrammar.Proofs.Calculator.Acceptance
import TypedGrammar.Proofs.Calculator.Values
import TypedGrammar.Proofs.Diagnosis.FoundCycles
import TypedGrammar.Proofs.Node.Readings
import TypedGrammar.Proofs.Node.FoldEvents
import TypedGrammar.Proofs.OrderedChoice.Termination
import TypedGrammar.Proofs.Diagnosis.AlwaysMatching
import TypedGrammar.Proofs.Diagnosis.Shadowing
import TypedGrammar.Proofs.OrderedChoice.Operators
import TypedGrammar.Proofs.Matching.KeyTerms
import TypedGrammar.Proofs.OrderedChoice.KeyTerms
import TypedGrammar.Proofs.Diagnosis.Reachability
import TypedGrammar.Proofs.Shape.Renaming
import TypedGrammar.Proofs.Draft.Renaming
import TypedGrammar.Proofs.Draft.InStep
import TypedGrammar.Proofs.Draft.KeyOrders
import TypedGrammar.Proofs.Rule.Reordering
import TypedGrammar.Proofs.OrderedChoice.Entries
import TypedGrammar.Proofs.Grammar.KeyChoices
import TypedGrammar.Proofs.Grammar.EntryOrders
import TypedGrammar.Proofs.Rule.Regrouping
import TypedGrammar.Proofs.Rule.Recalling
import TypedGrammar.Proofs.Grammar.Brackets
import TypedGrammar.Proofs.Grammar.Groups
import TypedGrammar.Proofs.Grammar.DroppedTerms
import TypedGrammar.Proofs.Text.Quotes
import TypedGrammar.Proofs.Grammar.FirstFailures
import TypedGrammar.Proofs.Grammar.NormalForms
import TypedGrammar.Proofs.Node.ListValues
import TypedGrammar.Proofs.Matching.LongestTokens
import TypedGrammar.Proofs.Matching.Trivia
