import TypedGrammar.Matching.Rule
import TypedGrammar.Node.Maker

/-!
# Reading trees

The value tree of a concrete tree: its nodes are made from the bottom up by the makers of its
terms. Trivia, punctuation and rules without nodes are left out.
-/

namespace TypedGrammar

/-- What the trees of one text are read with: the language and the makers of its terms, and the
lines and the name of the text. -/
structure Reading where
  language : Language
  makers : Array (Option Maker)
  lines : LineTable
  source : String

namespace Reading

/-- The term that a part of the tree stands for. -/
def term (reading : Reading) (kind : TreeKind) : Except Error Term :=
  match reading.language.termFor? kind with
  | some term => .ok term
  | none => .error (.invalidState
      s!"tree kind SyntaxKind({kind.number}) is not a term of `{reading.language.name}`")

/-- The maker of a kind of tree. -/
def maker? (reading : Reading) (kind : TreeKind) : Option Maker :=
  kind.term?.bind fun index => (reading.makers[index.value]?).join

/-- The location of an offset. -/
def locate (reading : Reading) (offset : Nat) : Location :=
  .resolve reading.lines offset reading.source

/-- Where a tree that begins at `offset` is located: at its first token that is not trivia, or at
its end if it has none. -/
def locateTree (reading : Reading) (offset : Nat) (tree : Tree) : Location :=
  reading.locate ((tree.firstToken? offset).getD (offset + tree.byteLength))

/-- The node of a token. Tokens of punctuation, and of terms without nodes, have none. -/
def tokenNode (reading : Reading) (kind : TreeKind) (offset : Nat) (text : String) :
    Except Error (Option Node) := do
  let term ← reading.term kind
  if term.flags.has .punctuation || term.flags.has .noNode then return none
  match reading.maker? kind with
  | some maker => return some (← maker.make ⟨term, reading.locate offset, some text, []⟩)
  | none => return none

/-- The node of a rule whose parts are known; without a maker it is a sequence. -/
def ruleNode (reading : Reading) (kind : TreeKind) (occurrence : Occurrence) :
    Except Error Node :=
  ((reading.maker? kind).getD .sequence).make occurrence

mutual

/-- The node of a tree that begins at `offset` and lies `depth` rules deep. -/
def node (reading : Reading) (depth offset : Nat) : Tree → Except Error (Option Node)
  | .token kind text => reading.tokenNode kind offset text
  | .node kind children => do
    let term ← reading.term kind
    if term.flags.has .noNode then return none
    let location := reading.locateTree offset (.node kind children)
    if nestingLimit < depth then throw (.rejectedAt location nestingMessage)
    let parts ← parts reading (depth + 1) offset children
    return some (← reading.ruleNode kind ⟨term, location, none, parts⟩)

/-- The parts that trees stand for which follow each other from `offset` on. -/
def parts (reading : Reading) (depth offset : Nat) : List Tree → Except Error (List Part)
  | [] => return []
  | tree :: rest =>
    if tree.isTrivia then parts reading depth (offset + tree.byteLength) rest
    else do
      let term ← reading.term tree.kind
      let made ← node reading depth offset tree
      return ⟨term, made⟩ :: (← parts reading depth (offset + tree.byteLength) rest)

end

/-- The first node among trees that follow each other from `offset` on, with its offset. -/
def firstNode? (offset : Nat) : List Tree → Option (Nat × Tree)
  | [] => none
  | .token _ text :: rest => firstNode? (offset + text.utf8ByteSize) rest
  | .node kind children :: _ => some (offset, .node kind children)

/-- The node of the root rule of a document. -/
def document (reading : Reading) (tree : Tree) : Except Error (Option Node) :=
  let children :=
    match tree with
    | .node _ children => children
    | .token _ _ => []
  match firstNode? 0 children with
  | some (offset, root) => reading.node 0 offset root
  | none => throw (.invalidState "document has no root rule")

end Reading

end TypedGrammar
