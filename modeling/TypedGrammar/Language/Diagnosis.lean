import TypedGrammar.Diagnostic
import TypedGrammar.Language.Basic

/-!
# Diagnosis of a language

Rules are matched by ordered choice, which runs forever on a rule that begins with itself and on a
repetition of nothing. Such rules are found here, with everything else that makes a grammar
unusable or doubtful.
-/

namespace TypedGrammar

/-! ## Sets of terms -/

/-- A set of the terms of one language: for each term, whether it is in the set. -/
abbrev TermSet := Array Bool

namespace TermSet

/-- Whether a term is in the set; an unknown term is not. -/
def has (set : TermSet) (index : TermIndex) : Bool :=
  set.getD index.value false

/-- Applies a step until it changes nothing, at most `fuel` times. -/
def iterate (step : TermSet → TermSet) : Nat → TermSet → TermSet
  | 0, set => set
  | fuel + 1, set =>
    let next := step set
    if next = set then set else iterate step fuel next

/-- The least set that a growing step leaves unchanged, among sets of `size` terms. Each step that
changes something adds a term, so `size` steps are enough. -/
def leastFixpoint (step : TermSet → TermSet) (size : Nat) : TermSet :=
  iterate step size (Array.replicate size false)

end TermSet

/-! ## Matching nothing -/

namespace Shape

mutual

/-- Whether a shape can match without consuming input, given the terms that can. -/
def isNullable (nullable : TermSet) : Shape → Bool
  | empty => true
  | hint _ => true
  | term index => nullable.has index
  | sequence items => allNullable nullable items
  | choice alternatives => anyNullable nullable alternatives
  | repeated item bounds => bounds.allowEmpty || isNullable nullable item
  | separated item _ bounds => bounds.allowEmpty || isNullable nullable item

/-- Whether all shapes of a list can match without consuming input. -/
def allNullable (nullable : TermSet) : List Shape → Bool
  | [] => true
  | shape :: rest => isNullable nullable shape && allNullable nullable rest

/-- Whether some shape of a list can match without consuming input. -/
def anyNullable (nullable : TermSet) : List Shape → Bool
  | [] => false
  | shape :: rest => isNullable nullable shape || anyNullable nullable rest

end

end Shape

/-- Whether a term can match without consuming input, given the terms that can. -/
def Term.isNullable (nullable : TermSet) (term : Term) : Bool :=
  match term.kind with
  | .key text => text.isEmpty
  | .rule (some shape) => shape.isNullable nullable
  | _ => false

namespace Diagnosis

/-- The terms that can match without consuming input. -/
def nullableTerms (terms : Array Term) : TermSet :=
  TermSet.leastFixpoint (fun set => terms.map (·.isNullable set)) terms.size

end Diagnosis

/-! ## Left corners -/

namespace Shape

mutual

/-- The rules that a shape may enter before it consumes input. -/
def leftCorners (isRule : TermIndex → Bool) (nullable : TermSet) : Shape → List TermIndex
  | empty => []
  | hint _ => []
  | term index => if isRule index then [index] else []
  | sequence items => leftCornersOfSequence isRule nullable items
  | choice alternatives => leftCornersOfChoice isRule nullable alternatives
  | repeated item _ => leftCorners isRule nullable item
  | separated item _ _ => leftCorners isRule nullable item

/-- The rules that a sequence may enter before it consumes input. -/
def leftCornersOfSequence (isRule : TermIndex → Bool) (nullable : TermSet) :
    List Shape → List TermIndex
  | [] => []
  | shape :: rest =>
    leftCorners isRule nullable shape
      ++ if shape.isNullable nullable then leftCornersOfSequence isRule nullable rest else []

/-- The rules that a choice may enter before it consumes input. -/
def leftCornersOfChoice (isRule : TermIndex → Bool) (nullable : TermSet) :
    List Shape → List TermIndex
  | [] => []
  | shape :: rest => leftCorners isRule nullable shape ++ leftCornersOfChoice isRule nullable rest

end

end Shape

namespace Diagnosis

/-- For each term the rules that it may enter before it consumes input. -/
def leftCornerRules (terms : Array Term) (nullable : TermSet) : Array (List Nat) :=
  let isRule (index : TermIndex) : Bool := terms[index.value]?.any (!·.isTerminal)
  terms.map fun term =>
    match term.shape? with
    | some shape => (shape.leftCorners isRule nullable).map TermIndex.value
    | none => []

/-! ## Cycles -/

/-- The progress of a search for cycles at one term. -/
inductive Progress
  | unseen
  /-- The term is on the path that is being searched. -/
  | active
  | done
  deriving DecidableEq, Repr

/-- The state of a search for cycles: the progress at each term, and the cycles found, each with
its first term repeated at its end. -/
structure CycleSearch where
  progress : Array Progress
  cycles : List (List Nat)

namespace CycleSearch

/-- The progress at a term. -/
def progressAt (search : CycleSearch) (n : Nat) : Progress :=
  search.progress.getD n .done

/-- Notes the progress at a term. -/
def note (search : CycleSearch) (n : Nat) (progress : Progress) : CycleSearch :=
  { search with progress := search.progress.setIfInBounds n progress }

/-- Searches from a term that is not visited yet; `path` leads to it, and `fuel` bounds how much
longer a path can grow. -/
def explore (edges : Array (List Nat)) : Nat → List Nat → Nat → CycleSearch → CycleSearch
  | 0, _, _, search => search
  | fuel + 1, path, n, search =>
    let path := path ++ [n]
    let explored := (edges.getD n []).foldl (fun search next =>
      match search.progressAt next with
      | .unseen => explore edges fuel path next search
      | .active =>
        { search with cycles := search.cycles ++ [path.dropWhile (· != next) ++ [next]] }
      | .done => search) (search.note n .active)
    explored.note n .done

end CycleSearch

/-- The cycles among the edges that are found by a search from each term in turn. -/
def cycles (edges : Array (List Nat)) : List (List Nat) :=
  let start : CycleSearch := ⟨Array.replicate edges.size .unseen, []⟩
  ((List.range edges.size).foldl (fun search n =>
    if search.progressAt n = .unseen then CycleSearch.explore edges edges.size [] n search
    else search) start).cycles

/-! ## Reachable terms -/

/-- The terms to which some rule in the set refers, with those in the set. -/
def reachStep (terms : Array Term) (set : TermSet) : TermSet :=
  (List.range terms.size).foldl (fun reached n =>
    if set.getD n false then
      match (terms[n]?).bind Term.shape? with
      | some shape =>
        shape.references.foldl (fun reached i => reached.setIfInBounds i.value true) reached
      | none => reached
    else reached) set

/-- The terms to which references lead from the root. -/
def reachableTerms (terms : Array Term) (root : TermIndex) : TermSet :=
  TermSet.iterate (reachStep terms) terms.size
    ((Array.replicate terms.size false).setIfInBounds root.value true)

/-! ## Messages -/

/-- A message without a location. -/
def report (severity : Severity) (message : String) : Diagnostic :=
  ⟨severity, message, none⟩

/-- What is wrong with a term on its own. -/
def termMessage? (term : Term) : Option Diagnostic :=
  match term.kind with
  | .key text =>
    if text.isEmpty then some (report .error s!"key term `{term.name}` has empty text")
    else if term.flags.has .keyword && !Text.isWord text then
      some (report .error s!"keyword {Text.quoted text} is not a word and cannot be reserved")
    else none
  | .rule none =>
    some (report .critical s!"rule `{term.name}` is referenced but never defined")
  | _ => none

/-- What is wrong with a comment. -/
def commentMessages (comment : Comment) : List Diagnostic :=
  (if comment.start.isEmpty then
    [report .critical s!"comment `{comment.name}` has an empty start symbol"] else [])
  ++ if comment.ends.any String.isEmpty then
    [report .error s!"comment `{comment.name}` has an empty end symbol"] else []

/-- What is wrong with one part of the shape of the rule called `owner`. -/
def partMessage? (language : Language) (nullable : TermSet) (owner : String) (part : Shape) :
    Option Diagnostic :=
  let endless (item : Shape) : Diagnostic :=
    report .critical (s!"repeated element {item.display language.term?} in `{owner}` "
      ++ "can match empty input")
  match part with
  | .term index =>
    if (language.term? index).isNone then
      some (report .critical s!"rule `{owner}` refers to unknown term {index.display}")
    else none
  | .repeated item _ => if item.isNullable nullable then some (endless item) else none
  | .separated item delimiter _ =>
    if item.isNullable nullable && delimiter.isNullable nullable then some (endless item) else none
  | .choice alternatives =>
    match alternatives.dropWhile (!·.isNullable nullable) with
    | always :: _ :: _ =>
      some (report .warning (s!"alternatives after {always.display language.term?} in `{owner}` "
        ++ "are unreachable; it always succeeds"))
    | _ => none
  | _ => none

/-- What is wrong with the shape of a rule. -/
def ruleMessages (language : Language) (nullable : TermSet) (term : Term) : List Diagnostic :=
  match term.shape? with
  | some shape => shape.parts.filterMap (partMessage? language nullable term.name)
  | none => []

/-- The message about a cycle of rules, each entered from the one before it before any input is
consumed. -/
def cycleMessage (terms : Array Term) (cycle : List Nat) : Diagnostic :=
  let nameOf (n : Nat) : String := (terms[n]?.map (·.name)).getD ""
  report .critical ("left recursion: " ++ " -> ".intercalate (cycle.map nameOf))

/-- The message about a rule to which no references lead. -/
def reachMessage? (language : Language) (reached : TermSet) (n : Nat) : Option Diagnostic :=
  match language.terms[n]? with
  | some term =>
    if !term.isTerminal && !reached.getD n false then
      some (report .warning s!"rule `{term.name}` is unreachable from `{language.rootName}`")
    else none
  | none => none

end Diagnosis

/-- Everything that is wrong with a language: first its terms and comments, then the shapes of its
rules, left recursion, and rules that are never used. -/
def Language.diagnose (language : Language) : List Diagnostic :=
  let terms := language.terms
  let nullable := Diagnosis.nullableTerms terms
  let corners := Diagnosis.leftCornerRules terms nullable
  let reached := Diagnosis.reachableTerms terms language.root
  terms.toList.filterMap Diagnosis.termMessage?
    ++ language.comments.flatMap Diagnosis.commentMessages
    ++ terms.toList.flatMap (Diagnosis.ruleMessages language nullable)
    ++ (Diagnosis.cycles corners).map (Diagnosis.cycleMessage terms)
    ++ (List.range terms.size).filterMap (Diagnosis.reachMessage? language reached)

end TypedGrammar
