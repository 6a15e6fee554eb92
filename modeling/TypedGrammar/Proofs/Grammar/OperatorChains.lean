import TypedGrammar.Proofs.Grammar.Parsing
import TypedGrammar.Proofs.Grammar.Yields
import TypedGrammar.Proofs.Matching.TokenForms
import TypedGrammar.Proofs.Node.OperatorChain

/-!
# Grammars of operator chains

A root that consists of operands of one node type with declared operators between them.  Wherever
its build is reached, the nodes below it are a chain: the operands are nodes of their type, and each
operator is a declared one with the text of its token.  So the chain can be folded.
-/

namespace TypedGrammar

open TypedGrammar.Tree

/-! ## Choices between key terms -/

namespace Drafting

/-- Terms that are added one by one are the alternatives of a choice. -/
theorem foldl_or (shape : Shape) (first : TermIndex) (rest : List TermIndex) :
    (first :: rest).foldl (fun shape index => shape ||| .term index) shape =
      .choice (shape.alternatives ++ (first :: rest).map .term) := by
  induction rest generalizing shape first with
  | nil => rfl
  | cons next rest ih =>
    rw [List.foldl_cons, ih]
    show Shape.choice ((shape.alternatives ++ [.term first]) ++ _) = _
    rw [List.append_assoc]
    rfl

end Drafting

namespace Language

variable {language : Language} {room : ℕ} {keys : List TermIndex} {start stop : Cursor}
  {trees : List Tree}

/-- A choice between key terms derives what one of them does. -/
theorem Derives.of_choiceOf (hkeys : keys ≠ [])
    (h : language.Derives room [Drafting.choiceOf keys] start trees stop) :
    ∃ key ∈ keys, language.Derives room [.term key] start trees stop := by
  match keys, hkeys with
  | [key], _ => exact ⟨key, List.mem_singleton_self key, h⟩
  | first :: second :: rest, _ =>
    rw [Drafting.choiceOf, Drafting.foldl_or] at h
    cases h with
    | unfold hunfolds hrest =>
      cases hunfolds with
      | alternative hmem =>
        obtain ⟨key, hkey, rfl⟩ : ∃ key ∈ first :: second :: rest, Shape.term key = _ :=
          List.mem_map.mp hmem
        exact ⟨key, hkey, hrest⟩

end Language

/-! ## Operators -/

namespace OperatorDeclaration

variable {type : OperatorDeclaration} {text : String} {node : Node}

/-- The node is the key term of an operator that is declared with the text.  Its value and the
declared one are related. -/
def Makes (type : OperatorDeclaration) (related : Value → Value → Prop) (text : String)
    (node : Node) : Prop :=
  ∃ entry ∈ type.operators, entry.text = text ∧ ∃ location value, related value entry.value ∧
    node = .key location value entry.name text (.ofList [.operator]) (some entry.precedence)

/-- The node of an operator can be folded as an operator of the type of the declared values. -/
theorem operator_of_makes {valueType : ValueType}
    (hvalues : ∀ entry ∈ type.operators, entry.value.type = valueType)
    (h : type.Makes Value.Replaces text node) :
    ∃ op, OperatorChain.operator valueType node = .ok op := by
  obtain ⟨entry, hentry, rfl, location, value, hvalue, rfl⟩ := h
  have htype : value.type = valueType := by
    rw [← hvalues entry hentry]
    rcases hvalue with rfl | hequal
    · rfl
    · exact Value.type_eq_of_equal hequal
  rw [OperatorChain.operator, if_pos htype]
  exact ⟨_, rfl⟩

end OperatorDeclaration

/-! ## Operands and operators of a grammar -/

section Terms

variable {told : Set TypeDeclaration} {draft : Draft} {name text source : String}
  {root index : TermIndex} {comments : List Comment} {room : ℕ} {start stop : Cursor}
  {trees : List Tree} (hsound : draft.Sound told)
include hsound

/-- What a node type derives has one node, of the kind of the type. -/
theorem yields_operand {type : NodeDeclaration} (hmem : .node type ∈ told)
    (hlookup : draft.declared.lookup type.typeName = some index)
    (hshown : ∀ term, draft.term? index = some term →
      term.flags.has .transient = false ∧ term.flags.has .noNode = false)
    (h : (draft.complete name root comments).language.Derives room [.term index] start trees stop) :
    ((draft.complete name root comments).reading text source).Yields trees fun texts nodes =>
      texts = [] ∧ ∃ node, nodes = [node] ∧ node.kind = .declared type.identity := by
  obtain ⟨kind, entry, hentry, hstays, hkind⟩ := hsound.stands _ hmem index hlookup
  have hterm : (draft.complete name root comments).language.term? index = some entry.toTerm :=
    Draft.term?_of_entry hentry
  -- Its flags may have been changed since, but the entry is a rule and makes the same nodes.
  have hrule : ∃ shape?, entry.kind = .rule shape? := by
    rcases hkind with rfl | ⟨_, shape, rfl, _⟩
    · exact ⟨none, hstays.kind_eq⟩
    · exact ⟨some shape, hstays.kind_eq⟩
  obtain ⟨shape?, hrule⟩ := hrule
  obtain ⟨htransient, hnode⟩ := hshown entry.toTerm (by rw [Draft.term?, Draft.entry?, hentry]; rfl)
  obtain ⟨shape, below, children, _, _, _, rfl⟩ := h.of_ruleTerm hterm hrule
  have hmaker : (draft.complete name root comments).makers[index.value]? =
      some (some (.declared type.identity type.value)) := by
    rw [Draft.makers_of_entry hentry, hstays.maker_eq]
    rfl
  rw [Language.ruleTrees, if_neg (Bool.eq_false_iff.mp htransient)]
  exact Reading.yields_node hterm hmaker hnode

/-- What a key term with a text derives has one node, that of the key term. -/
theorem yields_key {request : KeyRequest} (hkey : draft.Registers request index)
    (htext : request.text ≠ "") (hpunctuation : request.flags.has .punctuation = false)
    (hnode : request.flags.has .noNode = false)
    (h : (draft.complete name root comments).language.Derives room [.term index] start trees stop) :
    ((draft.complete name root comments).reading text source).Yields trees fun texts nodes =>
      texts = [request.text] ∧ ∃ location value, value.Replaces request.value ∧
        nodes = [.key location value request.name request.text request.flags
          request.precedence] := by
  -- The record may be that of another request, with which this one agrees.
  obtain ⟨record, hrecord, hserves, rfl⟩ := hkey
  have hentry := hsound.keys _ _ hrecord
  have hterm : (draft.complete name root comments).language.term? record.term =
      some record.toKeyRequest.entry.toTerm := Draft.term?_of_entry hentry
  have hmaker : (draft.complete name root comments).makers[record.term.value]? =
      some record.toKeyRequest.entry.maker := Draft.makers_of_entry hentry
  rcases h.of_term with
    ⟨term, token, found, middle, hterm', htoken, htakes, rfl⟩ | ⟨term, shape, _, _, _, hdef, _, _⟩
  · obtain rfl := Option.some.inj (hterm.symm.trans hterm')
    have hfound : found = record.text := by
      refine Matcher.spells_of_takes_token htoken htakes ?_
      intro hempty
      injection hempty with hempty
      exact htext (hserves.text.symm.trans hempty)
    subst hfound
    refine (Reading.yields_skipped start middle).append
      (Reading.yields_key hterm hmaker (hserves.flags ▸ hpunctuation) (hserves.flags ▸ hnode)) ?_
    rintro _ _ texts nodes ⟨rfl, rfl⟩ ⟨rfl, location, rfl⟩
    refine ⟨?_, location, record.value, hserves.value, ?_⟩
    · rw [List.nil_append, hserves.text]
    · rw [List.nil_append, KeyTermTable.name_of_get? hrecord, hserves.text, hserves.flags,
        hserves.precedence]
  · -- A key term is no rule.
    obtain rfl := Option.some.inj (hterm.symm.trans hdef.1)
    cases hdef.2

/-- What a declaration of operators derives has one node, that of a declared operator with the text
of the token. -/
theorem yields_operator {type : OperatorDeclaration} (hmem : .operator type ∈ told)
    (hlookup : draft.declared.lookup type.typeName = some index) (hsome : type.operators ≠ [])
    (htexts : ∀ entry ∈ type.operators, entry.text ≠ "")
    (h : (draft.complete name root comments).language.Derives room [.term index] start trees stop) :
    ((draft.complete name root comments).reading text source).Yields trees fun texts nodes =>
      ∃ found node, texts = [found] ∧ nodes = [node] ∧ type.Makes Value.Replaces found node := by
  obtain ⟨kind, entry, hentry, hstays, hkind⟩ := hsound.stands _ hmem index hlookup
  have hterm : (draft.complete name root comments).language.term? index = some entry.toTerm :=
    Draft.term?_of_entry hentry
  rcases hkind with rfl | ⟨_, shape, rfl, keys, hkeys, rfl⟩
  · -- Without a shape nothing is derived.
    obtain ⟨shape, _, _, hshape, _⟩ := h.of_ruleTerm hterm hstays.kind_eq
    cases hshape
  · obtain ⟨shape, below, children, hshape, _, hchildren, rfl⟩ := h.of_ruleTerm hterm hstays.kind_eq
    obtain rfl := Option.some.inj hshape
    have htransient : entry.flags.has .transient = true := by
      have hsame := hstays.eq_of_maker (by rintro ⟨_, _, hnone⟩; cases hnone)
      rw [hsame]
      show (Flags.ofList [.transient]).has .transient = true
      decide
    -- So the trees are those of the chosen key term.
    rw [Language.ruleTrees, if_pos htransient]
    have hnonempty : keys ≠ [] := by
      rintro rfl
      exact hsome (List.map_eq_nil_iff.mp (List.forall₂_nil_right_iff.mp hkeys))
    obtain ⟨key, hkey, hderives⟩ := hchildren.of_choiceOf hnonempty
    obtain ⟨request, hrequest, hregisters⟩ := exists_of_forall₂_right hkeys hkey
    obtain ⟨operator, hoperator, rfl⟩ := List.mem_map.mp hrequest
    have hflags : (Flags.ofList [.operator]).has .punctuation = false ∧
        (Flags.ofList [.operator]).has .noNode = false := by decide
    have hyields : ((draft.complete name root comments).reading text source).Yields children _ :=
      yields_key hsound hregisters (htexts operator hoperator) hflags.1 hflags.2 hderives
    intro depth offset parts hparts
    obtain ⟨hfound, location, value, hvalue, hnodes⟩ := hyields depth offset parts hparts
    exact ⟨_, _, hfound, hnodes, operator, hoperator, rfl, location, value, hvalue, rfl⟩

end Terms

/-! ## Chains -/

/-- An operand, and any number of operators with an operand behind each. -/
def Shape.chain (operand operator : TermIndex) : Shape :=
  .sequence [.term operand, .repeated (.sequence [.term operator, .term operand]) ⟨true, false⟩]

section Chains

variable {language : Language} {reading : Reading} {room : ℕ} {operand operator : TermIndex}
  {isOperand : Node → Prop} {isOperator : String → Node → Prop} {start stop : Cursor}
  {trees : List Tree}
  (hoperand : ∀ start trees stop, language.Derives room [.term operand] start trees stop →
    reading.Yields trees fun texts nodes => texts = [] ∧ ∃ node, nodes = [node] ∧ isOperand node)
  (hoperator : ∀ start trees stop, language.Derives room [.term operator] start trees stop →
    reading.Yields trees fun texts nodes =>
      ∃ text node, texts = [text] ∧ nodes = [node] ∧ isOperator text node)
include hoperand hoperator

/-- An operand and so many pairs of an operator and an operand are a chain. -/
theorem yields_links (n : ℕ)
    (h : language.Derives room
      (.term operand :: List.replicate n (.sequence [.term operator, .term operand]))
      start trees stop) :
    reading.Yields trees (OperatorChain.Chain isOperand isOperator) := by
  induction n generalizing start trees with
  | zero =>
    intro depth offset parts hparts
    obtain ⟨htexts, node, hnodes, hnode⟩ := hoperand _ _ _ h depth offset parts hparts
    rw [htexts, hnodes]
    exact .single hnode
  | succ n ih =>
    have hsplit : language.Derives room ([.term operand] ++
        List.replicate (n + 1) (.sequence [.term operator, .term operand])) start trees stop := h
    obtain ⟨first, middle, more, hfirst, hmore, rfl⟩ := hsplit.of_append
    rw [List.replicate_succ] at hmore
    cases hmore with
    | unfold hunfolds hpairs =>
      cases hunfolds
      have hpairs : language.Derives room ([.term operator] ++ (.term operand ::
          List.replicate n (.sequence [.term operator, .term operand]))) middle more stop := hpairs
      obtain ⟨second, _, rest, hsecond, hrest, rfl⟩ := hpairs.of_append
      -- Behind the first operand there is an operator, and behind that a shorter chain.
      have hlinks : reading.Yields (second ++ rest) fun texts nodes =>
          ∃ text node others behind, texts = text :: others ∧ nodes = node :: behind ∧
            isOperator text node ∧ OperatorChain.Chain isOperand isOperator others behind := by
        refine (hoperator _ _ _ hsecond).append (ih hrest) ?_
        rintro _ _ texts nodes ⟨text, node, rfl, rfl, hnode⟩ hchain
        exact ⟨text, node, texts, nodes, rfl, rfl, hnode, hchain⟩
      refine (hoperand _ _ _ hfirst).append hlinks ?_
      rintro _ _ _ _ ⟨rfl, node, rfl, hnode⟩ ⟨text, op, texts, nodes, rfl, rfl, hop, hchain⟩
      exact .cons hnode hop hchain

/-- What the shape of a chain derives is a chain. -/
theorem yields_chain
    (h : language.Derives room [Shape.chain operand operator] start trees stop) :
    reading.Yields trees (OperatorChain.Chain isOperand isOperator) := by
  cases h with
  | unfold hunfolds hitems =>
    cases hunfolds
    have hitems : language.Derives room ([.term operand] ++
        [.repeated (.sequence [.term operator, .term operand]) ⟨true, false⟩]) start trees stop :=
      hitems
    obtain ⟨first, middle, more, hfirst, hmore, rfl⟩ := hitems.of_append
    obtain ⟨n, hmore⟩ : ∃ n, language.Derives room
        (List.replicate n (.sequence [.term operator, .term operand])) middle more stop := by
      cases hmore with
      | unfold hunfolds hpairs =>
        rw [List.append_nil] at hpairs
        cases hunfolds with
        | noItem _ => exact ⟨0, hpairs⟩
        | repeated n => exact ⟨n + 1, hpairs⟩
    exact yields_links hoperand hoperator n (hfirst.append hmore)

end Chains

/-! ## Descriptions -/

/-- The rule of operands with operators between them. -/
def Rule.chain (operand : ℕ) (operators : OperatorDeclaration) : Rule :=
  .followedBy (.node operand) (.star (.followedBy (.operator operators) (.node operand)))

/-- The term as which a declaration is registered in a description. -/
def GrammarDescription.termOf? (description : GrammarDescription) (typeName : String) :
    Option Term :=
  let draft := ((Drafting.defineNode description.types description.root).runOn .empty).2
  (draft.declared.lookup typeName).bind draft.term?

namespace Drafting

variable {α β : Type} {told : Set TypeDeclaration} {types : Array NodeDeclaration}
  {operandType : NodeDeclaration} {operators : OperatorDeclaration} {number depth : ℕ}
  {draft last : Draft} {shape : Shape}

theorem map_bind_ok {γ : Type} {f : α → β} {p : Drafting α} {g : β → Drafting γ} {c : γ}
    (h : ((f <$> p) >>= g).runOn draft = (.ok c, last)) :
    ∃ a middle, p.runOn draft = (.ok a, middle) ∧ (g (f a)).runOn middle = (.ok c, last) := by
  obtain ⟨b, middle, hmap, h⟩ := bind_ok h
  rw [runOn_map] at hmap
  rcases hp : p.runOn draft with ⟨_ | a, after⟩
  · rw [hp] at hmap
    cases hmap
  · rw [hp] at hmap
    obtain ⟨rfl, rfl⟩ := ok_inj hmap
    exact ⟨a, after, rfl, h⟩

/-- The rule of a chain is evaluated to the shape of a chain. -/
theorem eval_chain (hfamily : TellsFamily told types) (htype : types[number]? = some operandType)
    (htold : Draft.Tells told (.operator operators))
    (h : ((Rule.chain number operators).eval (defineNodeWithin types depth)).runOn draft =
      (.ok shape, last)) :
    ∃ operand operator, shape = .chain operand operator ∧
      last.declared.lookup operandType.typeName = some operand ∧
        last.declared.lookup operators.typeName = some operator := by
  simp only [Rule.chain, Rule.eval] at h
  obtain ⟨operand, first, hfirst, h⟩ := map_bind_ok h
  obtain ⟨_, after, hstar, h⟩ := bind_ok h
  obtain ⟨_, _, hpair, hstar⟩ := bind_ok hstar
  obtain ⟨operator, second, hsecond, hpair⟩ := map_bind_ok hpair
  obtain ⟨again, third, hthird, hpair⟩ := map_bind_ok hpair
  obtain ⟨rfl, rfl⟩ := ok_inj hpair
  obtain ⟨rfl, rfl⟩ := ok_inj hstar
  obtain ⟨rfl, rfl⟩ := ok_inj h
  -- Both operands are the term under which their type is known.
  have hoperator := declares_operator htold
  have hext := (hoperator.respects first).extension
  rw [hsecond] at hext
  have hext' := (respects_defineNodeWithin hfamily depth number second).extension
  rw [hthird] at hext'
  have hlookup := (hext.trans hext').declared _ _ (lookup_of_defineNodeWithin hfamily htype hfirst)
  have hlookup' := lookup_of_defineNodeWithin hfamily htype hthird
  obtain rfl := Option.some.inj (hlookup.symm.trans hlookup')
  exact ⟨operand, operator, rfl, hlookup, hext'.declared _ _ (hoperator.lookup hsecond)⟩

end Drafting

/-- The root of a description is a chain of operands, which make nodes, and of operators that have
texts and values of one type. -/
structure GrammarDescription.IsChainOf (description : GrammarDescription)
    (operandType : NodeDeclaration) (operators : OperatorDeclaration) (valueType : ValueType) :
    Prop where
  coherent : description.IsCoherent
  rule : ∃ type operand, description.types[description.root]? = some type ∧
    description.types[operand]? = some operandType ∧ type.rule = .chain operand operators
  shown : ∀ term, description.termOf? operandType.typeName = some term →
    term.flags.has .transient = false ∧ term.flags.has .noNode = false
  nonempty : operators.operators ≠ []
  texts : ∀ entry ∈ operators.operators, entry.text ≠ ""
  values : ∀ entry ∈ operators.operators, entry.value.type = valueType

section Descriptions

variable {description : GrammarDescription} {grammar : Grammar} {built : BuiltGrammar}
  {operandType : NodeDeclaration} {operators : OperatorDeclaration} {valueType : ValueType}
  {text source : String} {children : List Tree} {contents : Contents}

/-- The language of such a description has a chain as its root, of a term that derives one operand
and of another one that derives one operator. -/
theorem GrammarDescription.IsChainOf.root_of_compile
    (h : description.IsChainOf operandType operators valueType)
    (hcompile : description.compile = .ok built) (text source : String) :
    ∃ term operand operator,
      built.language.Defines built.language.root term (.chain operand operator) ∧
      (∀ {room start trees stop}, built.language.Derives room [.term operand] start trees stop →
        (built.reading text source).Yields trees fun texts nodes =>
          texts = [] ∧ ∃ node, nodes = [node] ∧ node.kind = .declared operandType.identity) ∧
      ∀ {room start trees stop}, built.language.Derives room [.term operator] start trees stop →
        (built.reading text source).Yields trees fun texts nodes =>
          ∃ found node, texts = [found] ∧ nodes = [node] ∧
            operators.Makes Value.Replaces found node := by
  obtain ⟨type, number, htype, hnumber, hrule⟩ := h.rule
  obtain ⟨type', index, draft, htype', hrun, rfl⟩ := GrammarDescription.compile_ok hcompile
  obtain rfl := Option.some.inj (htype.symm.trans htype')
  have hfamily := h.coherent.tellsFamily
  obtain ⟨hsound, middle, shape, last, heval, hkept, entry, hentry, hstays⟩ :=
    Drafting.root_of_defineNode hfamily htype hrun
  have hnode : .node operandType ∈ description.declarations :=
    description.mem_declarations hnumber List.mem_cons_self
  have hoperator : .operator operators ∈ description.declarations := by
    refine description.mem_declarations htype (List.mem_cons_of_mem _ (List.mem_append_left _ ?_))
    rw [hrule]
    exact List.mem_singleton_self _
  rw [hrule] at heval
  obtain ⟨operand, operator, rfl, hfirst, hsecond⟩ := Drafting.eval_chain hfamily hnumber
    (fun other hother hname => h.coherent other hother _ hoperator hname) heval
  -- The term of the operands is the one that is known to make nodes.
  have hshown : ∀ term, draft.term? operand = some term →
      term.flags.has .transient = false ∧ term.flags.has .noNode = false := by
    intro term hterm
    refine h.shown term ?_
    rw [GrammarDescription.termOf?, hrun]
    show (draft.declared.lookup operandType.typeName).bind draft.term? = some term
    rw [hkept _ _ hfirst, Option.bind_some, hterm]
  refine ⟨entry.toTerm, operand, operator, ⟨Draft.term?_of_entry hentry, hstays.kind_eq⟩, ?_, ?_⟩
  · exact fun hderives => yields_operand hsound hnode (hkept _ _ hfirst) hshown hderives
  · exact fun hderives =>
      yields_operator hsound hoperator (hkept _ _ hsecond) h.nonempty h.texts hderives

namespace Grammar

open OperatorChain

/-- **Operator chains.**  If the root of a grammar is a chain, then wherever its build is reached
the nodes below it are a chain as well: an odd number of them, the operands of their type, and each
operator a declared one with the text of its token.  So folding them fails only where reading an
operand or applying an operator does. -/
theorem chain_of_reaches {threshold : Severity}
    (hbuild : (Grammar.mk description none).build threshold = (.ok true, grammar))
    (hbuilt : grammar.built = some built)
    (hchain : description.IsChainOf operandType operators valueType)
    (h : grammar.Reaches built text source children contents) :
    Chain (·.kind = .declared operandType.identity) (operators.Makes Value.Replaces)
        (termTexts children) contents.children ∧
      contents.children.length % 2 = 1 ∧
      ∀ {σ α : Type} (read : Node → ExceptT Error (StateM σ) α)
        (apply : α → Value → α → ExceptT Error (StateM σ) α) (state : σ) (e : Error),
        ((fold valueType read apply contents.children).run.run state).1 = .error e →
          FromCallback read apply contents.children e := by
  have hnodes : Chain (·.kind = .declared operandType.identity) (operators.Makes Value.Replaces)
      (termTexts children) contents.children := by
    obtain ⟨built', hcompile, _, rfl⟩ := build_ok hbuild
    obtain rfl := Option.some.inj hbuilt
    obtain ⟨term, operand, operator, hdef, hoperand, hoperator⟩ :=
      hchain.root_of_compile hcompile text source
    obtain ⟨below, start, stop, hchildren⟩ := h.derives hdef
    obtain ⟨parts, hparts, hcontents⟩ := h.parts
    rw [hcontents]
    exact yields_chain (fun _ _ _ => hoperand) (fun _ _ _ => hoperator) hchildren 1 0 parts hparts
  have hodd : contents.children.length % 2 = 1 := by
    rw [hnodes.length_eq]
    omega
  refine ⟨hnodes, hodd, fun read apply state e hfails => ?_⟩
  exact hnodes.fromCallback (fun _ _ => operators.operator_of_makes hchain.values) hfails

end Grammar

end Descriptions

/-! ## Chains of signed sums -/

namespace SignedSums

/-- A sum is a chain of items and operators. -/
theorem isChainOf : description.IsChainOf item plus .float64 where
  coherent := List.inj_on_of_nodup_map (by decide)
  rule := ⟨sum, 1, rfl, rfl, rfl⟩
  shown term hterm := by
    rw [GrammarDescription.termOf?, runOn_defineNode] at hterm
    rw [flags_eq_none (Or.inr rfl) hterm]
    decide
  nonempty := by decide
  texts := by decide
  values := by decide

/-- The node of a letter at a column. -/
def letterNode (column : ℕ) : Node :=
  .key ⟨0, column, column, "s"⟩ (.text "x") "x" "x" .none none

/-- What the build of the root is given for two items. -/
def contents : Contents where
  location := ⟨0, 0, 0, "s"⟩
  children := [
    .declared ⟨0, 0, 0, "s"⟩ item.identity .unit [letterNode 0],
    .key ⟨0, 1, 1, "s"⟩ (.float64 ⟨0⟩) "+" "+" (.ofList [.operator]) (some ⟨1, .left⟩),
    .declared ⟨0, 2, 2, "s"⟩ item.identity .unit [letterNode 2]]

/-- The text of two items reaches the build of the root. -/
theorem reaches : grammar.Reaches built "x+x" "s" twoItems contents where
  isBuilt := rfl
  accepted := ⟨_, [], parse?_eq, rfl⟩
  location := by decide +kernel
  parts := ⟨_, by with_unfolding_all rfl, by with_unfolding_all rfl⟩

open OperatorChain

/-- Between two items the operator has the value of the sign, which is not the declared one. -/
theorem not_makes_declaredValue :
    (Grammar.mk description none).build .critical = (.ok true, grammar) ∧
      grammar.built = some built ∧ description.IsChainOf item plus .float64 ∧
      grammar.Reaches built "x+x" "s" twoItems contents ∧
      ¬ Chain (·.kind = .declared item.identity) (plus.Makes (· = ·)) (termTexts twoItems)
        contents.children := by
  refine ⟨build_eq, rfl, isChainOf, reaches, ?_⟩
  intro hchain
  cases hchain with
  | cons _ hoperator _ =>
    obtain ⟨entry, hentry, _, location, value, rfl, hnode⟩ := hoperator
    rw [plus, List.mem_singleton] at hentry
    subst hentry
    injection hnode with _ hvalue
    injection hvalue with hvalue
    injection hvalue with hbits
    exact absurd hbits (by decide)

end SignedSums

/-- The chain of two items. -/
theorem Grammar.chain_of_reaches_twoItems :
    (Grammar.mk SignedSums.description none).build .critical = (.ok true, SignedSums.grammar) ∧
      SignedSums.grammar.built = some SignedSums.built ∧
      SignedSums.description.IsChainOf SignedSums.item SignedSums.plus .float64 ∧
      SignedSums.grammar.Reaches SignedSums.built "x+x" "s" SignedSums.twoItems
        SignedSums.contents ∧
      OperatorChain.Chain (·.kind = .declared SignedSums.item.identity)
        (SignedSums.plus.Makes Value.Replaces) (termTexts SignedSums.twoItems)
        SignedSums.contents.children ∧
      SignedSums.contents.children.length % 2 = 1 ∧
      ∀ {σ α : Type} (read : Node → ExceptT Error (StateM σ) α)
        (apply : α → Value → α → ExceptT Error (StateM σ) α) (state : σ) (e : Error),
        ((OperatorChain.fold .float64 read apply SignedSums.contents.children).run.run state).1 =
          .error e → OperatorChain.FromCallback read apply SignedSums.contents.children e :=
  ⟨SignedSums.build_eq, rfl, SignedSums.isChainOf, SignedSums.reaches,
    Grammar.chain_of_reaches SignedSums.build_eq rfl SignedSums.isChainOf SignedSums.reaches⟩

end TypedGrammar
