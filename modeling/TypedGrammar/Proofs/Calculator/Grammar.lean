import TypedGrammar.Node.Recipe
import TypedGrammar.Proofs.Calculator.Expressions
import TypedGrammar.Proofs.Grammar.OperatorChains
import TypedGrammar.Proofs.OrderedChoice.Symbols

/-!
# The grammar of a calculator

`Expression ::= Operand (ArithmeticOperator Operand)*` and `Operand ::= integer | "(" Expression
")"`, where an expression is calculated when its node is built.  What is registered for it is said
explicitly: twelve terms, seven of them key terms of one character.
-/

namespace TypedGrammar.Calculator

open Drafting

/-! ## The description -/

/-- How an operator is declared to bind. -/
def Sign.precedence (s : Sign) : Precedence :=
  ⟨s.level, if s.groupsRight then .right else .left⟩

/-- All operators, in the order of their declaration. -/
def Sign.all : List Sign :=
  [.plus, .minus, .times, .divide, .power]

/-- Each operator is declared. -/
theorem Sign.mem_all (s : Sign) : s ∈ Sign.all := by
  cases s <;> decide

/-- The text of an operator. -/
def Sign.text (s : Sign) : String :=
  s.char.toString

/-- The operators are characters, each written as it is. -/
def operators : OperatorDeclaration where
  typeName := "calculator::ArithmeticOperator"
  name := "ArithmeticOperator"
  operators := Sign.all.map fun s => ⟨s.text, .char s.char, s.text, s.precedence⟩

/-- The root: operands with operators between them, calculated when the node is built. -/
def expression : NodeDeclaration where
  typeName := "calculator::Expression"
  name := "Expression"
  number := 0
  valueType := .int64
  rule := .chain 1 operators
  afterthoughts := []
  build := Recipe.calculate.run

/-- An operand is an integer, or an expression in parentheses. -/
def operand : NodeDeclaration where
  typeName := "calculator::Operand"
  name := "Operand"
  number := 1
  valueType := .int64
  rule := .firstOf [.literal .integer, .braces "(" (.node 0) ")" false]
  afterthoughts := []
  build := (Recipe.value .int64 0).run

/-- The two node types with the expression as their root, and any comments. -/
def description (comments : List Comment) : GrammarDescription where
  name := "Calculator"
  types := #[expression, operand]
  root := 0
  comments

/-! ## What is registered -/

/-- The number of the root. -/
def expressionIndex : TermIndex :=
  .ofNat 0

/-- The number of operands, which are registered when the rule of expressions comes to them. -/
def operandIndex : TermIndex :=
  .ofNat 1

/-- The number of the literal that is the first alternative of an operand. -/
def integerIndex : TermIndex :=
  .ofNat 2

/-- The number of the opening parenthesis. -/
def openingIndex : TermIndex :=
  .ofNat 3

/-- The number of the closing parenthesis. -/
def closingIndex : TermIndex :=
  .ofNat 4

/-- The number of the rule of parentheses. -/
def groupIndex : TermIndex :=
  .ofNat 5

/-- The number of the choice between the operators. -/
def operatorIndex : TermIndex :=
  .ofNat 6

/-- The number of one operator. -/
def Sign.index : Sign → TermIndex
  | plus => .ofNat 7
  | minus => .ofNat 8
  | times => .ofNat 9
  | divide => .ofNat 10
  | power => .ofNat 11

/-- The key term of an operator. -/
def Sign.request (s : Sign) : KeyRequest :=
  ⟨s.text, s.text, .char s.char, .ofList [.operator], some s.precedence⟩

/-- The key term of the opening parenthesis. -/
def opening : KeyRequest :=
  ⟨"(", "(", .text "(", .ofList [.openBrace], none⟩

/-- The key term of the closing parenthesis. -/
def closing : KeyRequest :=
  ⟨")", ")", .text ")", .ofList [.closeBrace], none⟩

/-- An expression between parentheses. -/
def groupShape : Shape :=
  .sequence [.term openingIndex, .term expressionIndex, .term closingIndex]

/-- The root is a chain of operands and operators. -/
def expressionEntry : Entry :=
  { expression.pending with kind := .rule (some (.chain operandIndex operatorIndex)) }

/-- An operand is a choice of the integer and the group. -/
def operandEntry : Entry :=
  { operand.pending with
    kind := .rule (some (.choice [.term integerIndex, .term groupIndex])) }

/-- The literal is registered under its own name and type. -/
def integerEntry : Entry where
  name := "integer"
  kind := .literal .integer
  flags := .ofList [.literal]
  maker := some LiteralDeclaration.integer.maker

/-- The group is made as a brace. -/
def groupEntry : Entry where
  name := "(Expression)"
  kind := .rule (some groupShape)
  maker := some .brace

/-- Operators are spliced, so that they stand next to their operands. -/
def operatorEntry : Entry where
  name := "ArithmeticOperator"
  kind := .rule (some (.choice (Sign.all.map fun s => .term s.index)))
  flags := .ofList [.transient]

/-- The entries of the terms, by their numbers. -/
def entries : Array Entry := #[
  expressionEntry, operandEntry, integerEntry, opening.entry, closing.entry, groupEntry,
  operatorEntry, Sign.plus.request.entry, Sign.minus.request.entry, Sign.times.request.entry,
  Sign.divide.request.entry, Sign.power.request.entry]

/-- The draft after the evaluation of the root: each declaration and each request is known. -/
def draft : Draft where
  entries
  keyTerms := Sign.all.foldl (fun table s => table.push ⟨s.request, s.index⟩)
    ((KeyTermTable.empty.push ⟨opening, openingIndex⟩).push ⟨closing, closingIndex⟩)
  declared := [(operators.typeName, operatorIndex),
    (LiteralDeclaration.integer.typeName, integerIndex), (operand.typeName, operandIndex),
    (expression.typeName, expressionIndex)]
  claims := [(operators.name, operators.typeName),
    (LiteralDeclaration.integer.name, LiteralDeclaration.integer.typeName),
    (operand.name, operand.typeName), (expression.name, expression.typeName)]
  optionals := []
  groups := []
  lists := []
  braces := [(⟨"(", .term expressionIndex, ")", false⟩, groupIndex)]

/-- A single term is not grouped. -/
theorem group_term (index : TermIndex) : group (.term index) = pure (.term index) :=
  rfl

/-- Three terms in a row are one sequence. -/
theorem append_term_term (a b c : TermIndex) :
    Shape.term a ++ Shape.term b ++ Shape.term c = .sequence [.term a, .term b, .term c] :=
  rfl

/-- A term and a repetition are a sequence of two items. -/
theorem append_star (a : TermIndex) (item : Shape) :
    Shape.term a ++ item.star = .sequence [.term a, item.star] :=
  rfl

/-- The definition of the root registers the twelve terms. -/
theorem runOn_defineNode (comments : List Comment) :
    (defineNode (description comments).types (description comments).root).runOn .empty =
      (.ok expressionIndex, draft) := by
  simp [defineNode, defineNodeWithin, description, declare, claim, expression, operand, operators,
    Sign.all, Sign.text, Sign.char, Draft.empty, Draft.pushEntry, Draft.modifyTerm, Term.withShape,
    TermIndex.ofNat?, termLimit, NodeDeclaration.pending, Rule.chain, Rule.eval, Rule.evalAll,
    operator, literal, LiteralDeclaration.integer, braces, textKey, group_term, append_term_term,
    append_star, choiceOf, Except.map, List.lookup_cons, List.lookup_nil, KeyTermTable.lookup,
    KeyTermTable.get?_push]
  exact ⟨rfl, rfl⟩

/-! ## The grammar -/

section Built

variable (comments : List Comment)

/-- What the description is compiled to. -/
def built : BuiltGrammar :=
  draft.complete "Calculator" expressionIndex comments

/-- The description together with what it is compiled to. -/
def grammar : Grammar :=
  ⟨description comments, some (built comments)⟩

/-- The description is compiled without an error. -/
theorem compile_eq : (description comments).compile = .ok (built comments) := by
  rw [GrammarDescription.compile, runOn_defineNode]
  rfl

/-- An expression is a chain of operands with operators between them. -/
theorem defines_expression :
    (built comments).language.Defines expressionIndex expressionEntry.toTerm
      (.chain operandIndex operatorIndex) :=
  ⟨Draft.term?_of_entry rfl, rfl⟩

/-- An operand is an integer or a group. -/
theorem defines_operand :
    (built comments).language.Defines operandIndex operandEntry.toTerm
      (.choice [.term integerIndex, .term groupIndex]) :=
  ⟨Draft.term?_of_entry rfl, rfl⟩

/-- A group is an expression between parentheses. -/
theorem defines_group :
    (built comments).language.Defines groupIndex groupEntry.toTerm groupShape :=
  ⟨Draft.term?_of_entry rfl, rfl⟩

/-- The operator of a chain is one of the five. -/
theorem defines_operator :
    (built comments).language.Defines operatorIndex operatorEntry.toTerm
      (.choice (Sign.all.map fun s => .term s.index)) :=
  ⟨Draft.term?_of_entry rfl, rfl⟩

/-- The term of the literal. -/
theorem term?_integer :
    (built comments).language.term? integerIndex = some integerEntry.toTerm :=
  Draft.term?_of_entry rfl

/-- The term of the opening parenthesis. -/
theorem term?_opening :
    (built comments).language.term? openingIndex = some opening.entry.toTerm :=
  Draft.term?_of_entry rfl

/-- The term of the closing parenthesis. -/
theorem term?_closing :
    (built comments).language.term? closingIndex = some closing.entry.toTerm :=
  Draft.term?_of_entry rfl

/-- Each operator has its entry at its number. -/
theorem entry_sign (s : Sign) : draft.entries[s.index.value]? = some s.request.entry := by
  cases s <;> rfl

/-- No key term is empty. -/
theorem hasKeyTexts : (built comments).language.HasKeyTexts := by
  have h : (built []).language.HasKeyTexts := by decide +kernel
  exact h

/-- No symbol is the beginning of another one. -/
theorem longerSymbols_eq {text : String} (h : text.utf8ByteSize = 1) :
    Matcher.longerSymbols (built comments).language.symbols text = [] := by
  refine longerSymbols_eq_nil ?_
  have hone : ∀ key ∈ draft.keyTerms.records, key.text.utf8ByteSize ≤ 1 := by decide
  rw [h]
  exact hone

end Built

/-! ## Comments -/

/-- Whether a token may begin with a character. -/
def beginsToken (c : Char) : Bool :=
  c.isDigit || ['(', ')', '+', '-', '*', '/', '^'].contains c

/-- A comment is complete, and does not begin like a token. -/
structure IsApart (comment : Comment) : Prop where
  start_ne : comment.start ≠ ""
  ends_ne : ∀ e ∈ comment.ends, e ≠ ""
  begins : ∀ c ∈ comment.start.toList.head?, beginsToken c = false

/-- Nothing is wrong with the calculator but what is wrong with its comments. -/
theorem diagnose_eq {comments : List Comment} (h : ∀ comment ∈ comments, IsApart comment) :
    (built comments).language.diagnose = [] := by
  have hcomments : comments.flatMap Diagnosis.commentMessages = [] := by
    rw [List.flatMap_eq_nil_iff]
    intro comment hcomment
    have hends : comment.ends.any String.isEmpty = false := by
      rw [List.any_eq_false]
      intro e he
      rw [String.isEmpty_iff]
      exact (h comment hcomment).ends_ne e he
    have hstart : comment.start.isEmpty = false := by
      rw [Bool.eq_false_iff, ne_eq, String.isEmpty_iff]
      exact (h comment hcomment).start_ne
    rw [Diagnosis.commentMessages, hstart, hends]
    rfl
  have hothers : (built []).language.diagnose = [] := by decide +kernel
  simp only [Language.diagnose, List.append_eq_nil_iff] at hothers ⊢
  obtain ⟨⟨⟨⟨hterms, _⟩, hrules⟩, hcycles⟩, hreach⟩ := hothers
  exact ⟨⟨⟨⟨hterms, hcomments⟩, hrules⟩, hcycles⟩, hreach⟩

/-- The calculator is built, whatever the threshold. -/
theorem build_eq {comments : List Comment} (h : ∀ comment ∈ comments, IsApart comment)
    (threshold : Severity) :
    (Grammar.mk (description comments) none).build threshold = (.ok true, grammar comments) :=
  Grammar.build_of_compile (compile_eq comments) (diagnose_eq h)

end TypedGrammar.Calculator
