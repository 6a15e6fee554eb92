import TypedGrammar.Proofs.Calculator.Grammar
import TypedGrammar.Proofs.OrderedChoice.Chains
import TypedGrammar.Proofs.OrderedChoice.LeadingBlank

/-!
# Which trees the calculator has

Wherever the tokens of an expression stand, with any white space between them, the calculator reads
an expression, and its tree shows what is written: operands with operators between them, and inside
parentheses again an expression.  How operators are grouped is not shown.
-/

namespace TypedGrammar.Calculator

open Matcher TypedGrammar.Language

/-! ## Tokens -/

namespace Token

/-- The term of a token. -/
def index : Token → TermIndex
  | number _ => integerIndex
  | sign s => s.index
  | opening => openingIndex
  | closing => closingIndex

/-- Whether the term of a token may begin with a character. -/
def Begins : Token → Char → Prop
  | number _, c => c.isDigit = true
  | sign s, c => c = s.char
  | opening, c => c = '('
  | closing, c => c = ')'

/-- Whether a token is a number. -/
def isNumber : Token → Bool
  | number _ => true
  | _ => false

/-- The tree of a token. -/
def tree (token : Token) : Tree :=
  .token (.term token.index) (String.ofList token.chars)

variable {t u : Token} {c : Char}

/-- A token has a first character. -/
theorem exists_begins (t : Token) : ∃ c rest, t.chars = c :: rest ∧ t.Begins c := by
  cases t with
  | number n =>
    obtain ⟨c, rest, hchars⟩ := List.exists_cons_of_ne_nil (Nat.toDigits_ne_nil (b := 10) (n := n))
    have hmem : c ∈ Nat.toDigits 10 n := by
      rw [hchars]
      exact List.mem_cons_self
    exact ⟨c, rest, hchars, Number.isDigit_of_mem_toDigits c hmem⟩
  | sign s => exact ⟨s.char, [], rfl, rfl⟩
  | opening => exact ⟨'(', [], rfl, rfl⟩
  | closing => exact ⟨')', [], rfl, rfl⟩

theorem Begins.beginsToken (h : t.Begins c) : beginsToken c = true := by
  cases t with
  | number n =>
    have hdigit : c.isDigit = true := h
    rw [Calculator.beginsToken, hdigit, Bool.true_or]
  | sign s =>
    obtain rfl : c = s.char := h
    cases s <;> decide
  | opening =>
    obtain rfl : c = '(' := h
    decide
  | closing =>
    obtain rfl : c = ')' := h
    decide

/-- Only numbers begin with digits. -/
theorem Begins.not_isDigit (h : t.Begins c) (ht : t.isNumber = false) : c.isDigit = false := by
  cases t with
  | number n => cases ht
  | sign s =>
    obtain rfl : c = s.char := h
    cases s <;> decide
  | opening =>
    obtain rfl : c = '(' := h
    decide
  | closing =>
    obtain rfl : c = ')' := h
    decide

end Token

/-- No token begins with white space. -/
theorem whiteSpace_of_beginsToken {c : Char} (h : beginsToken c = true) :
    Text.whiteSpace.contains c = false := by
  have hcode : 40 ≤ c.toNat ∧ c.toNat ≤ 57 ∨ c.toNat = 94 := by
    rw [beginsToken, Bool.or_eq_true, Char.isDigit_iff_toNat, List.contains_iff_mem] at h
    rcases h with ⟨hlow, hhigh⟩ | h
    · have hzero : '0'.toNat = 48 := rfl
      have hnine : '9'.toNat = 57 := rfl
      omega
    · simp only [List.mem_cons, List.not_mem_nil, or_false] at h
      rcases h with rfl | rfl | rfl | rfl | rfl | rfl | rfl <;> decide
  simp only [Text.whiteSpace, Text.CodeRanges.contains, Text.CodeRanges.covers]
  grind

/-- A digit is not white space. -/
theorem isDigit_of_whiteSpace {c : Char} (h : Text.whiteSpace.contains c = true) :
    c.isDigit = false := by
  rw [Bool.eq_false_iff]
  intro hdigit
  rw [whiteSpace_of_beginsToken (by rw [beginsToken, hdigit, Bool.true_or])] at h
  cases h

/-! ## Places -/

/-- Some tokens stand between two places, with any white space before each of them. -/
inductive Stand : List Token → Cursor → Cursor → Prop
  | nil {start} : Stand [] start start
  | cons {token tokens blank start middle next stop} :
      IsBlank blank → start.Spans middle blank → middle.Spans next token.chars →
      Stand tokens next stop → Stand (token :: tokens) start stop

variable {tokens more : List Token} {token : Token} {start middle next stop : Cursor}

/-- What stands between two places, stands there one part after the other. -/
theorem Stand.of_append (h : Stand (tokens ++ more) start stop) :
    ∃ middle, Stand tokens start middle ∧ Stand more middle stop := by
  induction tokens generalizing start with
  | nil => exact ⟨start, .nil, h⟩
  | cons token tokens ih =>
    cases h with
    | cons hblank hwhite hchars hrest =>
      obtain ⟨place, hfirst, hsecond⟩ := ih hrest
      exact ⟨place, .cons hblank hwhite hchars hfirst, hsecond⟩

/-- Where a text begins that consists of some tokens, these tokens stand. -/
theorem Spells.stand {text : List Char} (h : Spells tokens text) (hrest : start.rest = text) :
    ∃ stop, Stand tokens start stop ∧ IsBlank stop.rest := by
  induction h generalizing start with
  | nil hblank => exact ⟨start, .nil, by rwa [hrest]⟩
  | cons hblank _ ih =>
    rw [List.append_assoc] at hrest
    obtain ⟨middle, hwhite, hmiddle⟩ := Cursor.exists_spans hrest
    obtain ⟨next, hchars, hnext⟩ := Cursor.exists_spans hmiddle
    obtain ⟨stop, hstand, hend⟩ := ih hnext
    exact ⟨stop, .cons hblank hwhite hchars hstand, hend⟩

/-- No digit follows at a place. -/
def NoDigit (place : Cursor) : Prop :=
  place.rest.head?.any Char.isDigit = false

/-- No digit follows in white space. -/
theorem IsBlank.noDigit (h : IsBlank start.rest) : NoDigit start := by
  unfold NoDigit
  cases hrest : start.rest with
  | nil => rfl
  | cons c rest =>
    refine isDigit_of_whiteSpace (h c ?_)
    rw [hrest]
    exact List.mem_cons_self

/-- Before a token that is no number there is no digit. -/
theorem Stand.noDigit (h : Stand (token :: tokens) start stop) (ht : token.isNumber = false) :
    NoDigit start := by
  cases h with
  | @cons _ _ blank _ middle next _ hblank hwhite hchars _ =>
    unfold NoDigit
    cases blank with
    | nil =>
      obtain ⟨c, rest, hc, hbegins⟩ := token.exists_begins
      obtain rfl := hwhite.eq_of_nil
      rw [hchars.1, hc]
      exact hbegins.not_isDigit ht
    | cons c cs =>
      rw [hwhite.1]
      exact isDigit_of_whiteSpace (hblank c List.mem_cons_self)

/-! ## Scanning -/

section Scanning

variable {comments : List Comment} {blank : List Char} {t : Token}

/-- Nothing is skipped where a token begins, or at the end of the text. -/
theorem skips_self_of_begins (hcomments : ∀ comment ∈ comments, IsApart comment)
    (h : ∀ c ∈ start.rest.head?, beginsToken c = true) : Skips comments start start := by
  refine skips_self_of_comments ?_ fun comment hcomment hne stop hspans => ?_
  · cases hhead : start.rest.head? with
    | none => rfl
    | some c => exact whiteSpace_of_beginsToken (h c hhead)
  · -- The comment would begin with the first character of the token.
    obtain ⟨c, rest, hstart⟩ := List.exists_cons_of_ne_nil (mt String.toList_eq_nil_iff.mp hne)
    have hbegins : beginsToken c = true := by
      refine h c ?_
      rw [hspans.1, hstart]
      rfl
    have happart := (hcomments comment hcomment).begins c (by rw [hstart]; rfl)
    rw [hbegins] at happart
    cases happart

/-- White space is skipped before a token, and before the end of the text. -/
theorem skips_blank (hcomments : ∀ comment ∈ comments, IsApart comment) (hblank : IsBlank blank)
    (hwhite : start.Spans middle blank) (h : ∀ c ∈ middle.rest.head?, beginsToken c = true) :
    Skips comments start middle :=
  (skips_self_of_begins hcomments h).of_spans hblank hwhite

/-- Digits behind which no other digit follows are an integer. -/
theorem scans_integer {lexicon : Lexicon} {cs : List Char} (hspans : start.Spans stop cs)
    (hdigits : LiteralForm.AreDigits cs) (hstop : NoDigit stop) :
    Scans lexicon (.literal .integer) start stop := by
  obtain ⟨c, rest, rfl⟩ := List.exists_cons_of_ne_nil hdigits.1
  obtain ⟨next, hnext, hspans'⟩ := hspans.exists_next
  have hc : (charWhere Char.isDigit).Takes start c next :=
    takes_satisfying.mpr ⟨hnext, hdigits.2 c List.mem_cons_self⟩
  obtain ⟨values, hvalues⟩ := exists_takes_many_charWhere hspans'
    (fun d hd => hdigits.2 d (List.mem_cons_of_mem c hd)) hstop
  have hall : digits.Takes start () stop :=
    takes_bind.mpr ⟨c, next, hc, takes_bind.mpr ⟨values, stop, hvalues, takes_pure.mpr ⟨rfl, rfl⟩⟩⟩
  exact ⟨literal .integer, start.spanText stop, rfl, takes_textOf.mpr ⟨(), hall, rfl⟩⟩

/-- Where no digit stands there is no integer. -/
theorem scansNothing_integer {lexicon : Lexicon} (h : NoDigit start) :
    ScansNothing lexicon (.literal .integer) start :=
  ⟨literal .integer, rfl, fails_textOf.mpr (fails_bind.mpr (Or.inl (fails_satisfying.mpr h)))⟩

/-- A key term of the calculator is a symbol of one character. -/
structure IsSymbol (comments : List Comment) (index : TermIndex) (c : Char) : Prop where
  term : ∃ request : KeyRequest, request.text = c.toString ∧
    (built comments).language.term? index = some request.entry.toTerm
  noWord : Text.isWord c.toString = false
  size : c.toString.utf8ByteSize = 1

theorem isSymbol_opening (comments : List Comment) : IsSymbol comments openingIndex '(' where
  term := ⟨opening, rfl, term?_opening comments⟩
  noWord := by decide
  size := by decide

theorem isSymbol_closing (comments : List Comment) : IsSymbol comments closingIndex ')' where
  term := ⟨closing, rfl, term?_closing comments⟩
  noWord := by decide
  size := by decide

theorem isSymbol_sign (comments : List Comment) (s : Sign) :
    IsSymbol comments s.index s.char where
  term := ⟨s.request, rfl, Draft.term?_of_entry (entry_sign s)⟩
  noWord := by cases s <;> decide
  size := by cases s <;> decide

section Symbols

variable {index : TermIndex} {c : Char} (h : IsSymbol comments index c)
  (hskips : Skips comments start middle)
include h hskips

/-- A symbol is scanned where its character stands. -/
theorem IsSymbol.scansTerm (hspans : middle.Spans next [c]) :
    (built comments).language.ScansTerm index start
      (.matched (skipped start middle ++ [.token (.term index) c.toString]) next) := by
  obtain ⟨request, htext, hterm⟩ := h.term
  have hkind : request.entry.toTerm.kind = .key c.toString := congrArg TermKind.key htext
  have hscans : Scans (built comments).language.lexicon request.entry.toTerm.kind middle next := by
    rw [hkind]
    refine (scans_symbol_iff h.noWord (longerSymbols_eq comments h.size)).mpr ?_
    rwa [Char.toString_eq_singleton, String.toList_singleton]
  have hscan := Language.ScansTerm.token hterm hskips hscans
  rwa [hspans.between_eq, ← String.singleton_eq_ofList, ← Char.toString_eq_singleton] at hscan

/-- A symbol is not scanned where another character stands, or none. -/
theorem IsSymbol.scansTerm_failed (hother : ∀ d ∈ middle.rest.head?, d ≠ c) :
    (built comments).language.ScansTerm index start .failed := by
  obtain ⟨request, htext, hterm⟩ := h.term
  have hkind : request.entry.toTerm.kind = .key c.toString := congrArg TermKind.key htext
  refine .noToken hterm hskips ?_
  rw [hkind]
  refine (scansNothing_symbol_iff h.noWord (longerSymbols_eq comments h.size)).mpr ?_
  intro stop hspans
  refine hother c ?_ rfl
  rw [hspans.1, Char.toString_eq_singleton, String.toList_singleton]
  rfl

end Symbols

/-- A token is scanned where its characters stand; behind a number no digit may follow. -/
theorem scansTerm_token (hskips : Skips comments start middle) (hspans : middle.Spans next t.chars)
    (hnext : t.isNumber = true → NoDigit next) :
    (built comments).language.ScansTerm t.index start
      (.matched (skipped start middle ++ [t.tree]) next) := by
  cases t with
  | number n =>
    have hscans : Scans (built comments).language.lexicon integerEntry.kind middle next :=
      scans_integer hspans ⟨Nat.toDigits_ne_nil, Number.isDigit_of_mem_toDigits⟩ (hnext rfl)
    have hscan := Language.ScansTerm.token (term?_integer comments) hskips hscans
    rwa [hspans.between_eq] at hscan
  | sign s => exact (isSymbol_sign comments s).scansTerm hskips hspans
  | opening => exact (isSymbol_opening comments).scansTerm hskips hspans
  | closing => exact (isSymbol_closing comments).scansTerm hskips hspans

/-- A token is not scanned where its term does not begin. -/
theorem scansTerm_noToken (hskips : Skips comments start middle)
    (hother : ∀ d ∈ middle.rest.head?, ¬ t.Begins d) :
    (built comments).language.ScansTerm t.index start .failed := by
  cases t with
  | number n =>
    refine .noToken (term?_integer comments) hskips (scansNothing_integer ?_)
    unfold NoDigit
    cases hhead : middle.rest.head? with
    | none => rfl
    | some d => exact Bool.eq_false_iff.mpr (hother d hhead)
  | sign s => exact (isSymbol_sign comments s).scansTerm_failed hskips hother
  | opening => exact (isSymbol_opening comments).scansTerm_failed hskips hother
  | closing => exact (isSymbol_closing comments).scansTerm_failed hskips hother

/-- Where tokens stand, the first one stands behind what is skipped. -/
theorem Stand.exists_first (hcomments : ∀ comment ∈ comments, IsApart comment)
    (h : Stand (t :: tokens) start stop) :
    ∃ middle next, Skips comments start middle ∧ middle.Spans next t.chars ∧
      Stand tokens next stop := by
  cases h with
  | @cons _ _ blank _ middle next _ hblank hwhite hchars hrest =>
    refine ⟨middle, next, skips_blank hcomments hblank hwhite ?_, hchars, hrest⟩
    obtain ⟨c, rest, hc, hbegins⟩ := t.exists_begins
    rw [hchars.1, hc]
    intro d hd
    obtain rfl := Option.some.inj hd
    exact hbegins.beginsToken

end Scanning

/-! ## Trees of expressions -/

/-- Nothing but trivia. -/
def IsTrivia (trees : List Tree) : Prop :=
  ∀ tree ∈ trees, tree.isTrivia = true

/-- **Trees of expressions.**  An expression in parentheses has a tree of its own; outside
parentheses the trees of operands and operators follow each other. -/
inductive Expression.HasTrees : Expression → List Tree → Prop
  | number {n trivia} :
      IsTrivia trivia →
      HasTrees (number n) [.node (.term operandIndex) (trivia ++ [Token.tree (.number n.val)])]
  | group {inner trees trivia trivia'} :
      IsTrivia trivia → HasTrees inner trees → IsTrivia trivia' →
      HasTrees (group inner) [.node (.term operandIndex) [.node (.term groupIndex)
        ((trivia ++ [Token.opening.tree]) ++
          ([.node (.term expressionIndex) trees] ++ (trivia' ++ [Token.closing.tree])))]]
  | apply {left sign right trees trees' trivia} :
      HasTrees left trees → IsTrivia trivia → HasTrees right trees' →
      HasTrees (apply left sign right) (trees ++ ((trivia ++ [Token.tree (.sign sign)]) ++ trees'))

theorem isTrivia_skipped (start stop : Cursor) : IsTrivia (skipped start stop) := by
  intro tree htree
  obtain ⟨text, rfl⟩ := mem_skipped htree
  rfl

section Acceptance

variable {comments : List Comment} {e : Expression} {trees : List Tree} {room : ℕ}

/-- One of the operators is read where its character stands. -/
theorem evaluates_operator {s : Sign} {room : ℕ∞} (hroom : room ≠ 0)
    (hskips : Skips comments start middle) (hspans : middle.Spans next (Token.sign s).chars) :
    (built comments).language.Evaluates room (.term operatorIndex) start
      (.matched (skipped start middle ++ [Token.tree (.sign s)]) next) := by
  obtain ⟨before, after, hall, hbefore⟩ := List.eq_append_cons_of_mem (Sign.mem_all s)
  have hchoice : (built comments).language.Evaluates (room - 1)
      (.shape (.choice (Sign.all.map fun s => .term s.index))) start
      (.matched (skipped start middle ++ [Token.tree (.sign s)]) next) := by
    rw [hall, List.map_append, List.map_cons]
    have hscan := scansTerm_token (t := .sign s) hskips hspans Bool.noConfusion
    refine evaluates_choice ?_ (.reference (.scan hscan))
    intro other hother
    obtain ⟨t, ht, rfl⟩ := List.mem_map.mp hother
    refine .reference (.scan (scansTerm_noToken (t := .sign t) hskips ?_))
    intro d hd hbegins
    -- Different operators have different characters.
    have hchar : s.char = t.char := by
      rw [hspans.1] at hd
      rw [← show d = t.char from hbegins]
      exact Option.some.inj hd
    have hsame : s = t := by
      cases s <;> cases t <;> first | rfl | exact absurd hchar (by decide)
    exact hbefore (hsame ▸ ht)
  exact .rule (defines_operator comments) hroom hchoice

/-- An expression may end at a place: there follows no digit, and no operator behind what is
skipped. -/
structure Ends (comments : List Comment) (place : Cursor) : Prop where
  noDigit : NoDigit place
  noSign : ∃ after, Skips comments place after ∧ ∀ s : Sign, ∀ d ∈ after.rest.head?, d ≠ s.char

theorem Ends.evaluates_operator (h : Ends comments stop) (room : ℕ∞) :
    (built comments).language.Evaluates room (.term operatorIndex) stop .failed := by
  by_cases hroom : room = 0
  · exact .refused (defines_operator comments) hroom
  · obtain ⟨after, hskips, hnot⟩ := h.noSign
    refine .rule (defines_operator comments) hroom (evaluates_choice_failed (by decide) ?_)
    intro other hother
    obtain ⟨s, _, rfl⟩ := List.mem_map.mp hother
    exact .reference (.scan (scansTerm_noToken (t := .sign s) hskips (hnot s)))

/-- Where an expression may end behind its chain, the rule of expressions reads it. -/
theorem evaluates_expression
    (h : Begin (built comments).language room operandIndex operatorIndex start trees stop)
    (hends : Ends comments stop) :
    (built comments).language.Evaluates ((room + 1 : ℕ) : ℕ∞) (.term expressionIndex) start
      (.matched [.node (.term expressionIndex) trees] stop) :=
  evaluates_node (defines_expression comments) (by decide) (h.chain (hends.evaluates_operator room))

/-- **Expressions are read.**  Where the tokens of an expression stand and no digit follows, its
trees begin a chain; three rules are opened for each level of parentheses, and one for operands. -/
theorem exists_trees_of_stand (hcomments : ∀ comment ∈ comments, IsApart comment)
    (hroom : 3 * e.depth + 1 ≤ room) (h : Stand e.tokens start stop) (hstop : NoDigit stop) :
    ∃ trees, e.HasTrees trees ∧
      Begin (built comments).language room operandIndex operatorIndex start trees stop := by
  induction e generalizing start stop room with
  | number n =>
    obtain ⟨k, rfl⟩ : ∃ k, room = k + 1 := ⟨room - 1, by omega⟩
    obtain ⟨middle, next, hskips, hspans, hrest⟩ := h.exists_first hcomments
    cases hrest
    have hscan := scansTerm_token hskips hspans fun _ => hstop
    have hchoice : (built comments).language.Evaluates (k : ℕ∞)
        (.shape (.choice [.term integerIndex, .term groupIndex])) start
        (.matched (skipped start middle ++ [Token.tree (.number n.val)]) stop) :=
      .choice (.firstMatch (.reference (.scan hscan)))
    have hoperand := evaluates_node (defines_operand comments) (by decide) hchoice
    exact ⟨_, .number (isTrivia_skipped start middle), begin_operand hoperand⟩
  | group inner ih =>
    rw [Expression.depth] at hroom
    obtain ⟨k, rfl⟩ : ∃ k, room = k + 3 := ⟨room - 3, by omega⟩
    have hroomInner : 3 * inner.depth + 1 ≤ k := by omega
    obtain ⟨middle, next, hskips, hspans, hrest⟩ := h.exists_first hcomments
    obtain ⟨place, hinner, hclosing⟩ := hrest.of_append
    obtain ⟨middle', next', hskips', hspans', hend⟩ := hclosing.exists_first hcomments
    cases hend
    have hends : Ends comments place := by
      refine ⟨hclosing.noDigit rfl, middle', hskips', fun s d hd => ?_⟩
      rw [hspans'.1] at hd
      obtain rfl := Option.some.inj hd
      cases s <;> decide
    obtain ⟨trees, htrees, hbegin⟩ := ih hroomInner hinner hends.noDigit
    -- The three rules are the expression inside, the parentheses, and the operand that they are.
    have hexpression := evaluates_expression hbegin hends
    have hopened := scansTerm_token hskips hspans Bool.noConfusion
    have hclosed := scansTerm_token hskips' hspans' Bool.noConfusion
    have hgroup := evaluates_node (defines_group comments) (by decide)
      (.sequence (.allCons (.reference (.scan hopened)) (.allCons (.reference hexpression)
        (.allCons (.reference (.scan hclosed)) .allNil))))
    have hnoInteger : (built comments).language.ScansTerm integerIndex start .failed := by
      refine scansTerm_noToken (t := .number 0) hskips fun d hd hdigit => ?_
      rw [hspans.1] at hd
      obtain rfl := Option.some.inj hd
      exact (by decide : ¬ '('.isDigit = true) hdigit
    have hoperand := evaluates_node (defines_operand comments) (by decide)
      (.choice (.firstNext (.reference (.scan hnoInteger)) (.firstMatch (.reference hgroup))))
    refine ⟨_, .group (isTrivia_skipped start middle) htrees (isTrivia_skipped place middle'),
      begin_operand ?_⟩
    simpa only [Verdict.map, List.append_nil] using hoperand
  | apply left sign right ihLeft ihRight =>
    obtain ⟨place, hleft, hrest⟩ := h.of_append
    obtain ⟨middle, next, hskips, hspans, hright⟩ := hrest.exists_first hcomments
    rw [Expression.depth] at hroom
    have hroomLeft : 3 * left.depth + 1 ≤ room := by omega
    have hroomRight : 3 * right.depth + 1 ≤ room := by omega
    have hroomSign : (room : ℕ∞) ≠ 0 := Nat.cast_ne_zero.mpr (by omega)
    obtain ⟨trees, htrees, hbegin⟩ := ihLeft hroomLeft hleft (hrest.noDigit rfl)
    obtain ⟨trees', htrees', hbegin'⟩ := ihRight hroomRight hright hstop
    exact ⟨_, .apply htrees (isTrivia_skipped place middle) htrees',
      hbegin.append (evaluates_operator hroomSign hskips hspans) hbegin'⟩

/-- **Acceptance.**  The text of an expression with at most 50 levels of parentheses, with any white
space between its tokens, is read as trees of the expression. -/
theorem reads_of_spells (hcomments : ∀ comment ∈ comments, IsApart comment)
    (hdepth : e.depth ≤ 50) {text : String} (h : Spells e.tokens text.toList) :
    ∃ trees rest, e.HasTrees trees ∧ (built comments).language.Reads nestingLimit text
      (some (.node .document (.node (.term expressionIndex) trees :: rest))) := by
  have hrest : (Cursor.start text.toList).rest = text.toList := rfl
  obtain ⟨stop, hstand, hblank⟩ := h.stand hrest
  obtain ⟨last, hspans, hlast⟩ := Cursor.exists_spans (List.append_nil stop.rest).symm
  have hend : ∀ c ∈ last.rest.head?, beginsToken c = true := by
    rw [hlast]
    nofun
  have hskips := skips_blank hcomments hblank hspans hend
  have hends : Ends comments stop := by
    refine ⟨hblank.noDigit, last, hskips, fun s => ?_⟩
    rw [hlast]
    nofun
  have hroom : 3 * e.depth + 1 ≤ 255 := by omega
  obtain ⟨trees, htrees, hbegin⟩ := exists_trees_of_stand hcomments hroom hstand hends.noDigit
  exact ⟨trees, _, htrees, .accepted (evaluates_expression hbegin hends) hskips hlast⟩

end Acceptance

end TypedGrammar.Calculator
