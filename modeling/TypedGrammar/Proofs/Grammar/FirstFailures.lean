import TypedGrammar.Proofs.Grammar.Parsing
import TypedGrammar.Proofs.Grammar.Scans

/-!
# Which failure is reported

The value of an accepted text is made at one position after the other, children before parents and
from left to right.  The first maker that fails decides: its error is the result, and no other maker
is called.  So a token without a value is reported where it stands, unless something fails before.
-/

namespace TypedGrammar

open TypedGrammar.Tree

namespace LiteralDeclaration

variable {type : LiteralDeclaration} {term : Term} {location : Location} {raw : String}

/-- The error about a token that the type has no value for. -/
def rejection (type : LiteralDeclaration) (location : Location) (raw : String) : Error :=
  .parse location [⟨.error, s!"invalid {type.name} literal `{raw}`", some location⟩]

/-- A literal without a value is rejected by its maker. -/
theorem make_of_read_eq_none (h : type.read raw = none) :
    type.maker.make ⟨term, location, some raw, []⟩ = .error (type.rejection location raw) := by
  rw [maker, Maker.make]
  simp only [Option.getD_some, h]
  rfl

end LiteralDeclaration

namespace Reading

variable {reading : Reading} {root : Tree} {earlier : List Making} {making : Making}
  {path : List ℕ} {kind : TreeKind} {raw : String} {type : LiteralDeclaration}
  {outcome : Except Error Node}

/-- A call for a token that the type has no value for rejects the token. -/
theorem Calls.result_of_rejected (h : reading.Calls root earlier path making)
    (hat : root.at? path = some (.token kind raw)) (hmaker : reading.maker? kind = some type.maker)
    (hread : type.read raw = none) :
    making.result = .error (type.rejection (reading.locate (root.bytesBefore path)) raw) := by
  cases h with
  | token hat' _ hmaker' =>
    obtain ⟨rfl, rfl⟩ := Tree.token.inj (Option.some.inj (hat.symm.trans hat'))
    obtain rfl := Option.some.inj (hmaker.symm.trans hmaker')
    exact LiteralDeclaration.make_of_read_eq_none hread
  | rule hat' => cases hat.symm.trans hat'

/-- **Reports.**  The positions at which nodes are made in a tree are in postorder, and the calls
are the scan of them.  The outcome is the error of the call that failed, which is then the last one,
or the node that was made at the top of the tree after calls at all positions.  Nothing is called
below a rule without nodes; and a token that its type has no value for is rejected where its text
stands, unless a call at an earlier position failed. -/
structure Reports (reading : Reading) (root : Tree) (makings : List Making)
    (outcome : Except Error Node) : Prop where
  positions : ∀ path, path ∈ reading.creations root ↔
    ∃ sub, root.at? path = some sub ∧ ¬ reading.IsHidden root path ∧ reading.makes sub = true
  ordered : (reading.creations root).Pairwise Precedes
  scans : ∀ others, reading.Scans root [] (reading.creations root) others ↔ others = makings
  failed : ∀ e, outcome = .error e ↔ ∃ making ∈ makings, making.result = .error e
  last : ∀ making ∈ makings, ∀ e, making.result = .error e →
    ∃ front, makings = front ++ [making] ∧ ∀ m ∈ front, ∃ node, m.result = .ok node
  made : ∀ node, outcome = .ok node → makings.map Making.path = reading.creations root ∧
    ∃ making ∈ makings, making.path = [] ∧ making.result = .ok node
  shown : ∀ making ∈ makings, ¬ reading.IsHidden root making.path
  rejected : ∀ path kind raw (type : LiteralDeclaration), path ∈ reading.creations root →
    root.at? path = some (.token kind raw) → reading.maker? kind = some type.maker →
    type.read raw = none →
    (∃ before behind, root.text = before ++ raw ++ behind ∧
        before.utf8ByteSize = root.bytesBefore path ∧
        outcome = .error (type.rejection (reading.locate before.utf8ByteSize) raw)) ∨
      ∃ making ∈ makings, Precedes making.path path ∧ ∃ e, making.result = .error e ∧
        outcome = .error e

/-- What comes of a tree that is not too high, and all parts of which have terms, is reported by the
calls of reading it. -/
theorem reports_record (hnames : reading.language.Names root) (htrivia : root.isTrivia = false)
    (hheight : root.height ≤ nestingLimit + 1)
    (houtcome : reading.node 0 0 root = outcome.map some) :
    reading.Reports root (reading.record 0 0 root).makings outcome := by
  have hscanned : reading.ScannedBy root [] (reading.creations root) (reading.record 0 0 root) := by
    have hzero : 0 + root.height ≤ nestingLimit + 1 := by omega
    have h : reading.ScannedBy root [] ((reading.creations root).map ([] ++ ·))
        ((reading.record 0 (root.bytesBefore []) root).below []) :=
      scannedBy_record hnames htrivia hzero (at?_nil root) fun _ hmaking =>
        absurd hmaking List.not_mem_nil
    simpa using h
  have hresult : (reading.record 0 0 root).result = outcome.map some :=
    (result_record reading 0 0 root).trans houtcome
  have hfailed : ∀ e, outcome = .error e ↔
      ∃ making ∈ (reading.record 0 0 root).makings, making.result = .error e := by
    intro e
    rw [← hscanned.failed e, hresult]
    cases outcome <;> simp [Except.map]
  refine ⟨fun _ => mem_creations hnames, pairwise_creations reading root, fun others => ?_, hfailed,
    fun _ hmaking _ => hscanned.scans.eq_append_of_failed hmaking, ?_, fun making hmaking => ?_, ?_⟩
  · exact ⟨fun h => h.unique hscanned.scans, fun h => h ▸ hscanned.scans⟩
  · rintro node rfl
    exact ⟨hscanned.scans.map_path_eq (hscanned.not_failed hresult),
      (made_eq_some_iff hresult).mp rfl⟩
  · have hmem := hscanned.scans.path_isPrefix.subset (List.mem_map_of_mem hmaking)
    obtain ⟨_, _, hshown, _⟩ := (mem_creations hnames).mp hmem
    exact hshown
  · intro path kind raw type hpath hat hmaker hread
    have hscans := hscanned.scans
    have hordered := pairwise_creations reading root
    obtain ⟨before, behind, hsplit⟩ := List.append_of_mem hpath
    rw [hsplit] at hscans hordered
    -- Either the scan comes to the token, or it ends at one of the positions before it.
    rcases hscans.exists_of_mem with ⟨_, making, hcall, hmaking⟩ | ⟨making, hmaking, hbefore, e, he⟩
    · obtain ⟨front, rest, htext, hsize⟩ := exists_text_eq hat
      refine Or.inl ⟨front, rest, htext, hsize, (hfailed _).mpr ⟨making, hmaking, ?_⟩⟩
      rw [hsize]
      exact hcall.result_of_rejected hat hmaker hread
    · have hprecedes := (List.pairwise_append.mp hordered).2.2 _ hbefore _ List.mem_cons_self
      exact Or.inr ⟨making, hmaking, hprecedes, e, he, (hfailed e).mpr ⟨making, hmaking, he⟩⟩

end Reading

namespace Grammar

variable {description : GrammarDescription} {grammar : Grammar} {built : BuiltGrammar}
  {text : String} {parse : Parse} {tree : Tree} {threshold : Severity}

/-- **First failures.**  In a built grammar whose root makes a node, the calls of makers for an
accepted text are the scan of the positions of its tree at which nodes are made, children before
parents and from left to right.  If one of them fails, then parsing fails with its error and no
other call is made; otherwise the node of the root is the result.  A token that its type has no
value for is reported where it stands, unless something before it fails; and nothing below a rule
without nodes is called. -/
theorem reports_of_parse
    (hbuild : (Grammar.mk description none).build threshold = (.ok true, grammar))
    (hbuilt : grammar.built = some built)
    (hroot : ∀ term, built.language.term? built.language.root = some term →
      term.flags.has .transient = false ∧ term.flags.has .noNode = false)
    (h : built.language.parse? text = some parse) (htree : parse.tree = some tree) :
    ∃ children behind,
      tree = .node .document (.node (.term built.language.root) children :: behind) ∧
      (∀ tree ∈ behind, tree.isTrivia = true) ∧
      ∀ source threshold, (built.reading text source).Reports
        (.node (.term built.language.root) children)
        ((built.reading text source).record 0 0
          (.node (.term built.language.root) children)).makings
        (grammar.parse text source threshold) := by
  obtain ⟨built', hcompile, _, rfl⟩ := build_ok hbuild
  obtain rfl := Option.some.inj hbuilt
  obtain ⟨type, term, shape, htype, hdef, hmaker⟩ := GrammarDescription.root_of_compile hcompile
  obtain ⟨htransient, hnode⟩ := hroot term hdef.1
  obtain ⟨below, children, middle, stop, _, hchildren, rfl⟩ :=
    Language.document_of_parse? hdef htransient h htree
  have hnames : built'.language.Names (.node (.term built'.language.root) children) :=
    .node hdef.1 hchildren.names
  obtain ⟨_, hdocument, hheight⟩ := Language.height_le_of_parse? h htree
  obtain ⟨_, rfl⟩ := Tree.node.inj hdocument
  refine ⟨children, _, rfl, fun tree htree => ?_, fun source threshold => ?_⟩
  · obtain ⟨text, rfl⟩ := mem_skipped htree
    rfl
  · refine Reading.reports_record hnames rfl
      ((hheight _ List.mem_cons_self).trans (Nat.le_succ _)) ?_
    -- Up to the type of the root, which its own maker gives it, parsing is reading the root.
    rw [parse_eq_rootNode rfl h htree, rootNode_eq htype hdef.1 hmaker hnode,
      Reading.node_eq (Reading.term_of_term? hdef.1) hnode (Nat.zero_le _)]
    cases (built'.reading text source).parts 1 0 children with
    | error e => rfl
    | ok parts =>
      rw [ok_bind, ok_bind]
      generalize (built'.reading text source).ruleNode _ _ = made
      cases made <;> rfl

end Grammar

/-! ### Two refused numbers

Two numbers, none of which has a value.  The first one stands below a rule without nodes, so it is
never looked at, and the second one is reported. -/

namespace RefusedNumbers

/-- The pair is the first term. -/
def pairIndex : TermIndex :=
  .ofNat 0

/-- The numbers are the second term, wherever they stand. -/
def numberIndex : TermIndex :=
  .ofNat 1

/-- The rule without nodes is the last term. -/
def skippedIndex : TermIndex :=
  .ofNat 2

/-- The declaration of the numbers, none of which has a value. -/
def number : LiteralDeclaration where
  typeName := "Number"
  name := "number"
  type := .int64
  form := .integer
  conversion := .reject

/-- The node type of a pair. -/
def pair : NodeDeclaration where
  typeName := "Pair"
  name := "Pair"
  number := 0
  valueType := .unit
  rule := .all [.withoutNode (.literal number), .literal number]
  afterthoughts := []
  build _ := .ok .null

/-- The grammar of pairs. -/
def description : GrammarDescription where
  name := "Pairs"
  types := #[pair]
  root := 0
  comments := []

/-- The three entries, in the order of their terms. -/
def entries : Array Entry := #[
  { pair.pending with
    kind := .rule (some (.sequence [.term skippedIndex, .term numberIndex])) },
  { name := "number"
    kind := .literal .integer
    flags := .ofList [.literal]
    maker := some number.maker },
  { name := "~number"
    kind := .rule (some (.term numberIndex))
    flags := .ofList [.noNode] }]

/-- The draft once everything is registered. -/
def draft : Draft where
  entries
  keyTerms := .empty
  declared := [("Number", numberIndex), ("Pair", pairIndex)]
  claims := [("number", "Number"), ("Pair", "Pair")]
  optionals := []
  groups := []
  lists := []
  braces := []

/-- What the grammar is compiled to. -/
def built : BuiltGrammar :=
  draft.complete description.name pairIndex description.comments

/-- The grammar once it is built. -/
def grammar : Grammar :=
  ⟨description, some built⟩

/-- Defining the pair registers the numbers, and then the rule without nodes. -/
theorem runOn_defineNode :
    (Drafting.defineNode description.types description.root).runOn .empty =
      (.ok pairIndex, draft) := by
  simp [Drafting.defineNode, Drafting.defineNodeWithin, description, Drafting.declare,
    Drafting.claim, pair, number, Draft.empty, Draft.pushEntry, Draft.modifyTerm,
    Term.withShape, TermIndex.ofNat?, termLimit, Drafting.literal, Drafting.withoutNode,
    NodeDeclaration.pending, Rule.eval, Rule.evalAll, Except.map,
    List.lookup_cons, List.lookup_nil]
  exact ⟨rfl, rfl⟩

/-- The grammar compiles. -/
theorem compile_eq : description.compile = .ok built := by
  rw [GrammarDescription.compile, runOn_defineNode]
  rfl

/-- It is built even if critical messages count. -/
theorem build_eq : (Grammar.mk description none).build .critical = (.ok true, grammar) :=
  Grammar.build_of_compile compile_eq (by decide +kernel)

/-- The tree of the text, with both numbers. -/
def tree : Tree :=
  .node (.term pairIndex) [
    .node (.term skippedIndex) [.token (.term numberIndex) "1"],
    .token .trivia " ",
    .token (.term numberIndex) "2"]

/-- Two numbers are accepted. -/
theorem parse?_eq : built.language.parse? "1 2" = some ⟨some (.node .document [tree]), []⟩ := by
  with_unfolding_all rfl

/-- The root makes a node. -/
theorem flags_root {term : Term} (h : built.language.term? built.language.root = some term) :
    term.flags.has .transient = false ∧ term.flags.has .noNode = false := by
  have hterm : (built.language.term? built.language.root).map (·.flags) = some .none := by
    with_unfolding_all rfl
  rw [h] at hterm
  have hflags : term.flags = .none := Option.some.inj hterm
  rw [hflags]
  decide

/-- The text is read with a source of its own. -/
def reading : Reading :=
  built.reading "1 2" "s"

/-- Makers are called for the second number and for the pair, but not for the first number. -/
theorem creations_eq : reading.creations tree = [[2], []] := by
  with_unfolding_all rfl

/-- The maker of the numbers is that of their declaration. -/
theorem maker?_eq : reading.maker? (.term numberIndex) = some number.maker := by
  with_unfolding_all rfl

/-- The maker is called for the second number only, and reports it at its place. -/
theorem reports_of_parse_twoNumbers :
    (Grammar.mk description none).build .critical = (.ok true, grammar) ∧
      built.language.parse? "1 2" = some ⟨some (.node .document [tree]), []⟩ ∧
      reading.Reports tree (reading.record 0 0 tree).makings (grammar.parse "1 2" "s" .error) ∧
      (reading.record 0 0 tree).makings.map Making.path = [[2]] ∧
      grammar.parse "1 2" "s" .error = .error (number.rejection ⟨0, 2, 2, "s"⟩ "2") := by
  obtain ⟨children, behind, hdocument, _, hreports⟩ :=
    Grammar.reports_of_parse build_eq rfl (fun _ => flags_root) parse?_eq rfl
  obtain ⟨_, hdocument⟩ := Tree.node.inj hdocument
  obtain ⟨htree, _⟩ := List.cons.inj hdocument
  have hreport : reading.Reports tree (reading.record 0 0 tree).makings
      (grammar.parse "1 2" "s" .error) := htree ▸ hreports "s" .error
  refine ⟨build_eq, parse?_eq, hreport, by with_unfolding_all rfl, ?_⟩
  have hmem : [2] ∈ reading.creations tree := by
    rw [creations_eq]
    exact List.mem_cons_self
  rcases hreport.rejected [2] (.term numberIndex) "2" number hmem rfl maker?_eq rfl with
    ⟨before, behind, _, hsize, hparse⟩ | ⟨_, hmaking, hbefore, _⟩
  · rw [hparse, hsize]
    with_unfolding_all rfl
  · -- Nothing is made before the second number.
    have hcalled := ((hreport.scans _).mpr rfl).path_isPrefix.subset
      (List.mem_map_of_mem hmaking)
    rw [creations_eq] at hcalled
    rcases List.mem_cons.mp hcalled with hpath | hpath
    · rw [hpath] at hbefore
      exact absurd hbefore hbefore.asymm
    · rw [List.mem_singleton.mp hpath] at hbefore
      cases hbefore

end RefusedNumbers

end TypedGrammar
