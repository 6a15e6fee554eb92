import TypedGrammar.Proofs.Calculator.Acceptance
import TypedGrammar.Proofs.Grammar.Making
import TypedGrammar.Proofs.Node.Folding

/-!
# What the calculator calculates

The trees of an expression are read into the value of its conventional reading, if all steps of the
calculation are defined and fit.  So the text of an expression, however its tokens are spaced, is
parsed into this value.
-/

namespace TypedGrammar.Calculator

open Number OperatorChain Reading

/-! ## Steps of the calculation -/

/-- What the fitting of a number yields is the number, as an integer of 64 bits. -/
theorem fitting_toInt64? {contents : Contents} {n v : ℤ} (h : Sign.fitting n = some v) :
    Recipe.fitting contents (toInt64? n) = .ok (Int64.ofInt v) := by
  obtain ⟨hfits, rfl⟩ := Sign.fitting_eq_some h
  rw [hfits.toInt64?_eq]
  rfl

/-- **Exact steps.**  An operation that is defined and fits is calculated exactly. -/
theorem calculateWith_eq (contents : Contents) {s : Sign} {a b v : ℤ} (ha : FitsInt64 a)
    (hb : FitsInt64 b) (h : s.result a b = some v) :
    Recipe.calculateWith contents (Int64.ofInt a) (.char s.char) (Int64.ofInt b) =
      .ok (Int64.ofInt v) := by
  have hplain : (Value.char s.char).plain = s.char.toString := by
    cases s <;> rfl
  rw [Recipe.calculateWith, hplain, ha.toInt_ofInt, hb.toInt_ofInt]
  cases s with
  | plus => exact fitting_toInt64? h
  | minus => exact fitting_toInt64? h
  | times => exact fitting_toInt64? h
  | divide =>
    rw [Sign.result] at h
    split at h
    · cases h
    · next hzero =>
      show (if b = 0 then _ else _) = _
      rw [if_neg hzero]
      exact fitting_toInt64? h
  | power =>
    rw [Sign.result] at h
    split at h
    · next hexponent =>
      obtain ⟨hfits, rfl⟩ := Sign.fitting_eq_some h
      show Recipe.fitting contents (power? (Int64.ofInt a) (Int64.ofInt b)) = _
      rw [power?_eq (by rwa [hb.toInt_ofInt]) (by rwa [ha.toInt_ofInt, hb.toInt_ofInt]),
        ha.toInt_ofInt, hb.toInt_ofInt]
      rfl
    · cases h

/-- An operator on the left is applied first where convention has it. -/
theorem bindsBefore_left {p s : Sign}
    (h : s.level < p.level ∨ s.level = p.level ∧ s.groupsRight = false) :
    p.precedence.bindsBefore s.precedence = true := by
  revert h
  cases p <;> cases s <;> decide

/-- An operator on the right is not waited for where convention has it. -/
theorem bindsBefore_right {s q : Sign}
    (h : s.level < q.level ∨ s.level = q.level ∧ s.groupsRight = true) :
    s.precedence.bindsBefore q.precedence = false := by
  revert h
  cases s <;> cases q <;> decide

/-! ## Nodes -/

/-- There is one part, and its node holds a number. -/
def Holds (n : Int64) (parts : List Part) : Prop :=
  ∃ term node, parts = [⟨term, some node⟩] ∧ node.payload? = some (.value (.int64 n))

/-- An integer of 64 bits is read back from its data. -/
theorem read_toData (n : Int64) :
    ValueType.int64.read (Value.int64 n).toData = some (.int64 n) := by
  show (((Value.int64 n).toData.taggedText? "i64").bind _).map Value.int64 = _
  have htext : (Value.int64 n).toData.taggedText? "i64" = some (toString n.toInt) := rfl
  rw [htext, Option.bind_some, readInt64_toString]
  rfl

theorem payloadAs_of_holds {node : Node} {n : Int64}
    (h : node.payload? = some (.value (.int64 n))) :
    node.payloadAs .int64 = .ok (.value (.int64 n)) := by
  have hpayload : node.payload = .ok (.value (.int64 n)) := by
    rw [Node.payload, h]
  rw [Node.payloadAs, hpayload]
  rfl

theorem valueAs_of_holds {node : Node} {n : Int64}
    (h : node.payload? = some (.value (.int64 n))) : node.valueAs .int64 = .ok (.int64 n) := by
  rw [Node.valueAs, payloadAs_of_holds h]
  rfl

theorem readNumber_of_holds {node : Node} {n : Int64}
    (h : node.payload? = some (.value (.int64 n))) : Recipe.readNumber node = .ok n := by
  rw [Recipe.readNumber, valueAs_of_holds h]
  rfl

/-- What a node type builds that holds a number. -/
theorem value_of_build {type : NodeDeclaration} {contents : Contents} {n : Int64}
    (htype : type.valueType = .int64)
    (h : type.build contents = .ok (Value.int64 n).toData) :
    type.value contents = .ok (.int64 n) := by
  rw [NodeDeclaration.value, h, ok_bind, htype]
  simp only [read_toData]
  rfl

/-! ## Trees -/

section Trees

variable {comments : List Comment} {text source : String} {depth : ℕ} {trees : List Tree}
  {n : Int64} {v : ℤ} {e : Expression}

/-- Some parts are a chain that is grouped to a number. -/
def Groups (e : Expression) (v : ℤ) (parts : List Part) : Prop :=
  ∀ contents, Grouped .char Recipe.readNumber (Recipe.calculateWith contents)
    (parts.filterMap (·.node)) (e.signs.map Sign.precedence) (Int64.ofInt v)

/-- A single number is a chain of its own. -/
theorem Holds.groups {parts : List Part} (h : Holds (Int64.ofInt v) parts) (hsigns : e.signs = []) :
    Groups e v parts := by
  intro contents
  obtain ⟨term, node, rfl, hvalue⟩ := h
  rw [hsigns]
  exact .operand (readNumber_of_holds hvalue)

theorem makers_of_entry (comments : List Comment) {index : TermIndex} (entry : Entry)
    {maker : Maker} (h : draft.entries[index.value]? = some entry)
    (hmaker : entry.maker = some maker) :
    (built comments).makers[index.value]? = some (some maker) := by
  rw [← hmaker]
  exact Draft.makers_of_entry h

/-- A node type that builds a number from its parts makes a node that holds it. -/
theorem makes_declared {index : TermIndex} (entry : Entry) (type : NodeDeclaration)
    {P : List Part → Prop} (hentry : draft.entries[index.value]? = some entry)
    (hmaker : entry.maker = some (.declared type.identity type.value))
    (hnode : entry.flags.has .noNode = false) (htype : type.valueType = .int64)
    (hdepth : depth ≤ nestingLimit)
    (h : ((built comments).reading text source).Makes (depth + 1) trees P)
    (hbuild : ∀ location parts, P parts →
      type.build ⟨location, parts.filterMap (·.node)⟩ = .ok (Value.int64 n).toData) :
    ((built comments).reading text source).Makes depth [.node (.term index) trees] (Holds n) := by
  refine makes_rule (Draft.term?_of_entry hentry) (makers_of_entry comments entry hentry hmaker)
    hnode hdepth h ?_
  intro location parts hparts
  have hvalue := value_of_build htype (hbuild location parts hparts)
  refine ⟨.declared location type.identity (.int64 n) (parts.filterMap (·.node)), ?_, _, _, rfl,
    rfl⟩
  rw [Maker.make, Occurrence.nodes, hvalue]
  rfl

/-- An operand holds what is below it. -/
theorem makes_operand (hdepth : depth ≤ nestingLimit)
    (h : ((built comments).reading text source).Makes (depth + 1) trees (Holds n)) :
    ((built comments).reading text source).Makes depth [.node (.term operandIndex) trees]
      (Holds n) := by
  refine makes_declared operandEntry operand rfl rfl (by decide) rfl hdepth h ?_
  rintro location _ ⟨term, node, rfl, hvalue⟩
  show (node.payloadAs .int64 >>= _) = _
  rw [payloadAs_of_holds hvalue]
  rfl

/-- An expression is built by calculating the chain below it. -/
theorem Groups.build_eq {parts : List Part} (h : Groups e v parts) (location : Location) :
    expression.build ⟨location, parts.filterMap (·.node)⟩ =
      .ok (Value.int64 (Int64.ofInt v)).toData := by
  show (OperatorChain.fold .char Recipe.readNumber (Recipe.calculateWith _) _ >>= _) = _
  rw [(h ⟨location, parts.filterMap (·.node)⟩).fold_eq]
  rfl

/-- An expression holds the number to which the chain below it is grouped. -/
theorem makes_expression (hdepth : depth ≤ nestingLimit)
    (h : ((built comments).reading text source).Makes (depth + 1) trees (Groups e v)) :
    ((built comments).reading text source).Makes depth [.node (.term expressionIndex) trees]
      (Holds (Int64.ofInt v)) := by
  refine makes_declared expressionEntry expression rfl rfl (by decide) rfl hdepth h ?_
  exact fun location parts hgroups => hgroups.build_eq location

/-- A literal is made of a token that has a value. -/
theorem make_of_read {type : LiteralDeclaration} {term : Term} {location : Location}
    {raw : String} {value : Value} (h : type.read raw = some value) :
    type.maker.make ⟨term, location, some raw, []⟩ = .ok (.literal location value raw) := by
  simp only [LiteralDeclaration.maker, Maker.make, Option.getD_some, h]
  rfl

/-- A literal holds its number. -/
theorem makes_integer (n : Fin (2 ^ 63)) :
    ((built comments).reading text source).Makes depth [Token.tree (.number n.val)]
      (Holds (Int64.ofInt n.val)) := by
  have hfits : FitsInt64 (n.val : ℤ) := Expression.fits_of_value (e := .number n) rfl
  have hread : ValueType.int64.readText (String.ofList (Nat.toDigits 10 n.val)) =
      some (.int64 (Int64.ofInt n.val)) := by
    rw [ValueType.readText, String.toList_ofList, readInt64, readInteger_toDigits,
      Option.bind_some, hfits.toInt64?_eq]
    rfl
  refine makes_token (term?_integer comments)
    (makers_of_entry comments integerEntry rfl rfl) (by decide) (by decide) fun location => ?_
  refine ⟨.literal location (.int64 (Int64.ofInt n.val)) (String.ofList (Nat.toDigits 10 n.val)),
    ?_, _, _, rfl, rfl⟩
  exact make_of_read hread

/-- There is one part, and its node is that of a key term. -/
def IsKey (request : KeyRequest) (parts : List Part) : Prop :=
  ∃ location, parts = [⟨request.entry.toTerm, some (.key location request.value request.name
    request.text request.flags request.precedence)⟩]

/-- A key term makes its node. -/
theorem makes_key {index : TermIndex} (request : KeyRequest)
    (hentry : draft.entries[index.value]? = some request.entry)
    (hpunctuation : request.flags.has .punctuation = false)
    (hnode : request.flags.has .noNode = false) :
    ((built comments).reading text source).Makes depth [.token (.term index) request.text]
      (IsKey request) :=
  makes_token (Draft.term?_of_entry hentry) (makers_of_entry comments request.entry hentry rfl)
    hnode hpunctuation fun location => ⟨_, rfl, location, rfl⟩

/-- An occurrence of three parts, of which the outer ones open and close a brace, is one. -/
theorem toBrace_eq {term : Term} {location : Location} {first middle last : Part} {node : Node}
    (hfirst : first.term.flags.has .openBrace = true)
    (hlast : last.term.flags.has .closeBrace = true) (hnode : middle.node = some node) :
    Occurrence.toBrace ⟨term, location, none, [first, middle, last]⟩ =
      .brace location first.term.text? last.term.text? node.soleOrSelf := by
  rw [Occurrence.toBrace]
  simp only [hfirst, hlast, hnode, Bool.and_self, if_true, Option.getD_some]

/-- Parentheses hold what is inside. -/
theorem makes_group {trivia trivia' inner : List Tree} (hdepth : depth ≤ nestingLimit)
    (htrivia : IsTrivia trivia) (htrivia' : IsTrivia trivia')
    (h : ((built comments).reading text source).Makes (depth + 1) inner (Holds n)) :
    ((built comments).reading text source).Makes depth [.node (.term groupIndex)
      ((trivia ++ [Token.opening.tree]) ++ (inner ++ (trivia' ++ [Token.closing.tree])))]
      (Holds n) := by
  have hopening : ((built comments).reading text source).Makes (depth + 1)
      (trivia ++ [Token.opening.tree]) (IsKey opening) :=
    (makes_key opening rfl (by decide) (by decide)).behind htrivia
  have hclosing : ((built comments).reading text source).Makes (depth + 1)
      (trivia' ++ [Token.closing.tree]) (IsKey closing) :=
    (makes_key closing rfl (by decide) (by decide)).behind htrivia'
  refine makes_rule (defines_group comments).1 (makers_of_entry comments groupEntry rfl rfl)
    (by decide) hdepth (hopening.append (h.append hclosing)) ?_
  rintro location _ ⟨_, _, ⟨_, rfl⟩, ⟨_, _, ⟨term, node, rfl, hvalue⟩, ⟨_, rfl⟩, rfl⟩, rfl⟩
  have hself : node.soleOrSelf.payload? = some (.value (.int64 n)) := by
    cases node with
    | sequence location children => cases hvalue
    | _ => exact hvalue
  have hopens : opening.flags.has .openBrace = true := by decide
  have hcloses : closing.flags.has .closeBrace = true := by decide
  exact ⟨_, congrArg Except.ok (toBrace_eq hopens hcloses rfl), _, _, rfl, hself⟩

/-- **Trees of conventional readings.**  The trees of an expression are read, within the nesting
limit, as a chain that is grouped as convention has it, to the value of the expression. -/
theorem Expression.HasTrees.makes (h : e.HasTrees trees) (hconv : e.IsConventional)
    (hvalue : e.value = some v) (hdepth : depth + 3 * e.depth ≤ nestingLimit) :
    ((built comments).reading text source).Makes depth trees (Groups e v) := by
  induction h generalizing depth v with
  | @number n trivia htrivia =>
    obtain rfl := Option.some.inj hvalue
    refine Makes.imp (makes_operand (by omega) ?_) fun parts hparts => hparts.groups rfl
    exact (makes_integer n).behind htrivia
  | @group inner trees trivia trivia' htrivia _ htrivia' ih =>
    -- A group opens three rules: the operand, the group and the expression in it.
    rw [Expression.depth] at hdepth
    have hinner : ((built comments).reading text source).Makes (depth + 3) trees (Groups inner v) :=
      ih hconv hvalue (by omega)
    refine Makes.imp (makes_operand (by omega) ?_) fun parts hparts => hparts.groups rfl
    exact makes_group (by omega) htrivia htrivia' (makes_expression (by omega) hinner)
  | @apply left sign right trees trees' trivia _ htrivia _ ihLeft ihRight =>
    obtain ⟨hleft, hright, hbefore, hbehind⟩ := hconv
    obtain ⟨a, b, ha, hb, hresult⟩ := Expression.value_apply_eq_some hvalue
    rw [Expression.depth] at hdepth
    have hoperands : ((built comments).reading text source).Makes depth trees (Groups left a) :=
      ihLeft hleft ha (by omega)
    have hoperands' : ((built comments).reading text source).Makes depth trees' (Groups right b) :=
      ihRight hright hb (by omega)
    have hflags : (Flags.ofList [.operator]).has .punctuation = false ∧
        (Flags.ofList [.operator]).has .noNode = false := by decide
    have hsign : ((built comments).reading text source).Makes depth
        (trivia ++ [Token.tree (.sign sign)]) (IsKey sign.request) :=
      (makes_key sign.request (entry_sign sign) hflags.1 hflags.2).behind htrivia
    refine (hoperands.append (hsign.append hoperands')).imp ?_
    rintro _ ⟨first, _, hfirst, ⟨_, second, ⟨location, rfl⟩, hsecond, rfl⟩, rfl⟩ contents
    rw [List.filterMap_append, List.filterMap_append, Expression.signs, List.map_append,
      List.map_cons]
    have happly := calculateWith_eq contents (Expression.fits_of_value ha)
      (Expression.fits_of_value hb) hresult
    refine .apply (hfirst contents)
      (show operator .char _ = .ok ⟨.char sign.char, sign.precedence⟩ from rfl) (hsecond contents)
      ?_ ?_ happly
    · -- Both sides stand as convention has it, so that the operator here is applied last.
      intro p hp
      obtain ⟨s, hs, rfl⟩ := List.mem_map.mp hp
      exact bindsBefore_left (hbefore s hs)
    · intro q hq
      obtain ⟨s, hs, rfl⟩ := List.mem_map.mp hq
      exact bindsBefore_right (hbehind s hs)

end Trees

/-! ## Parsing -/

section Parsing

variable {comments : List Comment} {e r : Expression} {text : String} {v : ℤ}

/-- The text of a conventional reading with a value is parsed into the value. -/
theorem parse_of_isConventional (hcomments : ∀ comment ∈ comments, IsApart comment)
    (hdepth : r.depth ≤ 50) (hconv : r.IsConventional) (hvalue : r.value = some v)
    (htext : Spells r.tokens text.toList) (source : String) (threshold : Severity) :
    ∃ node, (grammar comments).parse text source threshold = .ok node ∧
      (grammar comments).isRoot node = true ∧
      node.valueAs .int64 = .ok (.int64 (Int64.ofInt v)) := by
  obtain ⟨trees, rest, htrees, hreads⟩ := reads_of_spells hcomments hdepth htext
  obtain ⟨parse, hparse, htree⟩ := hreads.parse? (hasKeyTexts comments)
  have hlimit : 1 + 3 * r.depth ≤ nestingLimit := by
    have : nestingLimit = 256 := rfl
    omega
  have hmakes : ((built comments).reading text source).Makes 1 trees (Groups r v) :=
    htrees.makes hconv hvalue hlimit
  obtain ⟨parts, hparts, hgroups⟩ := hmakes 0
  have hmaker : (built comments).makers[expressionIndex.value]? =
      some (some (.declared expression.identity expression.value)) :=
    makers_of_entry comments expressionEntry rfl rfl
  have hmade : ∀ location,
      ((built comments).reading text source).ruleNode (.term (built comments).language.root)
        ⟨expressionEntry.toTerm, location, none, parts⟩ =
      .ok (.declared location expression.identity (.int64 (Int64.ofInt v))
        (parts.filterMap (·.node))) := by
    intro location
    rw [Grammar.ruleNode_root hmaker, Occurrence.nodes,
      value_of_build rfl (hgroups.build_eq location)]
    rfl
  have hparsed : (grammar comments).parse text source threshold = _ :=
    Grammar.parse_eq_rootNode rfl hparse htree threshold
  have hroot : (grammar comments).rootNode ((built comments).reading text source)
      (.node .document (.node (.term expressionIndex) trees :: rest)) = _ :=
    Grammar.rootNode_eq rfl (defines_expression comments).1 hmaker (by decide)
  rw [hparts] at hroot
  exact ⟨_, hparsed.trans (hroot.trans (hmade _)), Grammar.isRoot_of_ruleNode hmaker rfl (hmade _),
    valueAs_of_holds rfl⟩

/-- **Calculator round trip.**  The calculator is built.  Every expression with at most 50 levels of
parentheses has a conventional reading; and if all steps of calculating it are defined and fit, then
what is written of the expression, with any white space between its tokens, is parsed into the value
of this reading. -/
theorem parse_written (hcomments : ∀ comment ∈ comments, IsApart comment) (hdepth : e.depth ≤ 50) :
    (∀ threshold,
        (Grammar.mk (description comments) none).build threshold = (.ok true, grammar comments)) ∧
      (∃ r : Expression, r.IsConventional ∧ r.tokens = e.tokens) ∧
      ∀ (r : Expression) (v : ℤ) (text : String), r.IsConventional → r.tokens = e.tokens →
        r.value = some v → Spells e.tokens text.toList → ∀ source threshold,
          ∃ node, (grammar comments).parse text source threshold = .ok node ∧
            (grammar comments).isRoot node = true ∧
            node.valueAs .int64 = .ok (.int64 (Int64.ofInt v)) := by
  refine ⟨build_eq hcomments, e.exists_isConventional, ?_⟩
  intro r v text hconv htokens hvalue htext source threshold
  rw [← htokens] at htext
  rw [← Expression.depth_eq_of_tokens htokens] at hdepth
  exact parse_of_isConventional hcomments hdepth hconv hvalue htext source threshold

/-- A sum in parentheses is subtracted from a power of a power; it is also what is written of a
difference in an exponent. -/
theorem parse_written_difference :
    let comments := [Comment.line "comment" "#"]
    let e : Expression := .apply (.number 2) .power (.apply (.number 3) .power
      (.apply (.number 2) .minus (.group (.apply (.number 1) .plus (.number 3)))))
    let r : Expression := .apply (.apply (.number 2) .power (.apply (.number 3) .power (.number 2)))
      .minus (.group (.apply (.number 1) .plus (.number 3)))
    (∀ comment ∈ comments, IsApart comment) ∧ e.depth ≤ 50 ∧ r.IsConventional ∧
      r.tokens = e.tokens ∧ r.value = some 508 ∧ Spells e.tokens "2^ 3^2 -(1+\t3)\n".toList ∧
      ∃ node, (grammar comments).parse "2^ 3^2 -(1+\t3)\n" "s" .error = .ok node ∧
        (grammar comments).isRoot node = true ∧
        node.valueAs .int64 = .ok (.int64 (Int64.ofInt 508)) := by
  intro comments e r
  have hcomments : ∀ comment ∈ comments, IsApart comment := by
    intro comment hcomment
    obtain rfl := List.mem_singleton.mp hcomment
    refine ⟨by decide, by decide, fun c hc => ?_⟩
    obtain rfl : '#' = c := Option.some.inj hc
    decide
  have hdepth : e.depth ≤ 50 := by decide
  have hconv : r.IsConventional := by decide
  have htokens : r.tokens = e.tokens := by decide
  have hvalue : r.value = some 508 := by decide
  have hlast : IsBlank ['\n'] := by decide
  have htext : Spells e.tokens "2^ 3^2 -(1+\t3)\n".toList :=
    spells_flatMap hlast [([], .number 2), ([], .sign .power), ([' '], .number 3),
      ([], .sign .power), ([], .number 2), ([' '], .sign .minus), ([], .opening), ([], .number 1),
      ([], .sign .plus), (['\t'], .number 3), ([], .closing)] (by decide)
  exact ⟨hcomments, hdepth, hconv, htokens, hvalue, htext,
    (parse_written hcomments hdepth).2.2 r 508 _ hconv htokens hvalue htext "s" .error⟩

end Parsing

end TypedGrammar.Calculator
