import TypedGrammar.Proofs.Matching.KeyTerms
import TypedGrammar.Proofs.OrderedChoice.Attempts

/-!
# Symbols

Where a symbol is not the beginning of a longer one, it stands exactly where its characters do.
Languages of one rule and such symbols are what the limits of the engine are shown by.
-/

namespace TypedGrammar

open Matcher

section Scanning

variable {lexicon : Lexicon} {text : String} {start stop : Cursor}

variable (hword : Text.isWord text = false) (hlonger : longerSymbols lexicon.symbols text = [])
include hword hlonger

theorem scans_symbol_iff : Scans lexicon (.key text) start stop ↔ start.Spans stop text.toList := by
  constructor
  · rintro ⟨token, found, htoken, hfound⟩
    simp only [tokenText?, hword, Bool.false_eq_true, if_false, Option.some.injEq] at htoken
    subst htoken
    exact (takes_symbol_iff.mp hfound).2.1
  · intro hspans
    have hlongest : IsLongestSymbol lexicon.symbols text start.rest := by
      refine isLongestSymbol_iff.mpr ⟨⟨_, hspans.1.symm⟩, ?_⟩
      rw [hlonger]
      exact fun _ h => absurd h List.not_mem_nil
    refine ⟨symbol lexicon.symbols text, start.spanText stop, ?_, ?_⟩
    · simp only [tokenText?, hword, Bool.false_eq_true, if_false]
    · exact takes_symbol_iff.mpr ⟨hlongest, hspans, rfl⟩

theorem scansNothing_symbol_iff :
    ScansNothing lexicon (.key text) start ↔ ∀ stop, ¬ start.Spans stop text.toList := by
  constructor
  · intro hnothing stop hspans
    exact ((scans_symbol_iff hword hlonger).mpr hspans).not_nothing hnothing
  · intro hspans
    refine ⟨symbol lexicon.symbols text, ?_, ?_⟩
    · simp only [tokenText?, hword, Bool.false_eq_true, if_false]
    · rcases takes_or_fails_or_stalls (symbol lexicon.symbols text) start with
        ⟨found, stop, h⟩ | h | h
      · exact absurd (takes_symbol_iff.mp h).2.1 (hspans stop)
      · exact h
      · exact absurd h (steady_symbol lexicon.symbols text).settles

end Scanning

/-- A symbol is not the beginning of a longer one if no key term has a longer text. -/
theorem longerSymbols_eq_nil {language : Language} {text : String}
    (h : ∀ key ∈ language.keyTerms.records, key.text.utf8ByteSize ≤ text.utf8ByteSize) :
    longerSymbols language.symbols text = [] := by
  rw [longerSymbols, List.reverse_eq_nil_iff, List.filter_eq_nil_iff]
  intro s hs
  rw [Language.symbols, List.mem_mergeSort, List.mem_eraseDups, List.mem_filter] at hs
  obtain ⟨key, hkey, rfl⟩ := List.mem_map.mp hs.1
  have hle := h key (Array.mem_toList_iff.mp hkey)
  simp [Nat.not_lt.mpr hle]

/-- Nothing is skipped where neither white space nor a comment stands. -/
theorem skips_self_of_comments {comments : List Comment} {start : Cursor}
    (hwhite : start.rest.head?.any Text.whiteSpace.contains = false)
    (hcomments : ∀ comment ∈ comments, comment.start ≠ "" →
      ∀ stop, ¬ start.Spans stop comment.start.toList) : Skips comments start start := by
  refine ⟨[], takes_many.mpr (Or.inl ⟨fails_foldl_orElse_iff.mpr ⟨?_, ?_⟩, rfl, rfl⟩)⟩
  · exact fails_bind.mpr (Or.inl (fails_satisfying.mpr hwhite))
  · intro comment hcomment
    obtain ⟨hmem, hstart⟩ := List.mem_filter.mp hcomment
    have hne : comment.start ≠ "" := by simpa using hstart
    refine fails_bind.mpr (Or.inl ?_)
    rcases takes_or_fails_or_stalls (exactText comment.start) start with
      ⟨_, stop, htext⟩ | hfails | hstalls
    · exact absurd (takes_exactText.mp htext) (hcomments comment hmem hne stop)
    · exact hfails
    · exact absurd hstalls stalls_exactText

/-- Nothing is skipped where no white space stands, without comments. -/
theorem skips_self {start : Cursor}
    (h : start.rest.head?.any Text.whiteSpace.contains = false) : Skips [] start start :=
  skips_self_of_comments h nofun

/-! ## Languages of one rule -/

/-- The number of the one rule. -/
def ruleIndex : TermIndex :=
  .ofNat 0

/-- The number of the first symbol. -/
def firstSymbol : TermIndex :=
  .ofNat 1

/-- The number of the second symbol. -/
def secondSymbol : TermIndex :=
  .ofNat 2

/-- The key term that a symbol is registered as. -/
def symbolKey (index : TermIndex) (text : String) : KeyTerm :=
  { name := text, text, value := .text text, flags := .none, precedence := none, term := index }

/-- The term of a symbol. -/
def symbolTerm (text : String) : Term :=
  ⟨text, .key text, .none, none⟩

/-- The language of one rule without a name of its own, and of symbols with their numbers. -/
def Language.ofRule (shape : Shape) (symbols : List (TermIndex × String)) : Language where
  name := "A"
  terms := (⟨"A", .rule (some shape), .none, none⟩ :: symbols.map fun s => symbolTerm s.2).toArray
  keyTerms := symbols.foldl (fun table s => table.push (symbolKey s.1 s.2)) .empty
  root := ruleIndex
  comments := []

namespace Language

/-- The one rule is the only one. -/
theorem defines_ofRule {shape shape' : Shape} {symbols : List (TermIndex × String)}
    {index : TermIndex} {term : Term} (h : (ofRule shape symbols).Defines index term shape') :
    index = (ofRule shape symbols).root ∧ shape' = shape := by
  obtain ⟨⟨n, hn⟩, hterm⟩ : ∃ i : TermIndex, i = index := ⟨index, rfl⟩
  subst hterm
  obtain ⟨hterm, hkind⟩ := h
  simp only [term?, ofRule, List.getElem?_toArray] at hterm
  cases n with
  | zero =>
    rw [List.getElem?_cons_zero] at hterm
    obtain rfl := Option.some.inj hterm
    injection hkind with hshape
    injection hshape with hshape
    exact ⟨rfl, hshape.symm⟩
  | succ n =>
    rw [List.getElem?_cons_succ, List.getElem?_map] at hterm
    obtain ⟨s, _, rfl⟩ := Option.map_eq_some_iff.mp hterm
    cases hkind

/-- The parts of a language of one rule are those of its shape. -/
theorem hasPart_ofRule {shape part : Shape} {symbols : List (TermIndex × String)}
    (h : (ofRule shape symbols).HasPart part) : part = .empty ∨ part ∈ shape.parts := by
  refine h.imp id ?_
  rintro ⟨index, term, shape', hdef, hpart⟩
  obtain ⟨_, rfl⟩ := defines_ofRule hdef
  exact hpart

/-- A term that is not the rule opens nothing. -/
theorem attempts_ofRule {shape : Shape} {symbols : List (TermIndex × String)} {index : TermIndex}
    {room : ℕ∞} {opened : ℕ} {goal : Task} {start place : Cursor}
    (h : (ofRule shape symbols).Attempts room (.shape (.term index)) start opened goal place)
    (hindex : index ≠ (ofRule shape symbols).root) : opened = 0 := by
  cases h with
  | here => rfl
  | inside htry h =>
    cases htry
    cases h with
    | here => rfl
    | inside htry => cases htry
    | opens hdef => exact absurd (defines_ofRule hdef).1 hindex

end Language

/-- A rule that is not transient makes one node. -/
theorem Language.Evaluates.node {language : Language} {room : ℕ∞} {index : TermIndex} {term : Term}
    {shape : Shape} {start stop : Cursor} {trees : List Tree}
    (hdef : language.Defines index term shape) (hroom : room ≠ 0)
    (hnode : term.flags.has .transient = false)
    (h : language.Evaluates (room - 1) (.shape shape) start (.matched trees stop)) :
    language.Evaluates room (.term index) start (.matched [.node (.term index) trees] stop) := by
  have hrule := Evaluates.rule hdef hroom h
  rwa [Verdict.map, ruleTrees, hnode, if_neg Bool.false_ne_true] at hrule

section Symbols

variable {language : Language} {index : TermIndex} {text : String} {start stop : Cursor}
  (hterm : language.term? index = some (symbolTerm text)) (hword : Text.isWord text = false)
  (hlonger : ∀ key ∈ language.keyTerms.records, key.text.utf8ByteSize ≤ text.utf8ByteSize)
  (hskips : Skips language.comments start start)
include hterm hword hlonger hskips

/-- Where its characters stand, a symbol is one token. -/
theorem scansTerm_symbol (hspans : start.Spans stop text.toList) :
    language.ScansTerm index start (.matched [.token (.term index) text] stop) := by
  have hscans : Scans language.lexicon (symbolTerm text).kind start stop :=
    (scans_symbol_iff hword (longerSymbols_eq_nil hlonger)).mpr hspans
  have h := Language.ScansTerm.token hterm hskips hscans
  rwa [skipped, if_neg (lt_irrefl _), List.nil_append, hspans.between_eq, String.ofList_toList] at h

theorem scansTerm_noSymbol (hspans : ∀ stop, ¬ start.Spans stop text.toList) :
    language.ScansTerm index start .failed :=
  .noToken hterm hskips
    ((scansNothing_symbol_iff hword (longerSymbols_eq_nil hlonger)).mpr hspans)

end Symbols

end TypedGrammar
