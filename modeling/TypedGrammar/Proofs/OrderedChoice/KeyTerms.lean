import TypedGrammar.Proofs.OrderedChoice.Matchers
import TypedGrammar.Proofs.OrderedChoice.Symbols

/-!
# Key terms in a text

What a language matches behind the trivia before a token: a key term that is a word, exactly where
it is the longest word; a symbol, exactly where it is the longest of all symbols of the language.
So at one place at most one word and at most one symbol match, whatever else is registered, and
where a reserved word stands there is no identifier.
-/

namespace TypedGrammar

open Matcher

/-! ## Where a key term stands -/

/-- A text begins with a key term: with its word as the longest one, or with its symbol as the
longest one. -/
def KeyStands (symbols : List String) (text : String) (cs : List Char) : Prop :=
  if Text.isWord text then Text.leadingWord cs = text.toList else IsLongestSymbol symbols text cs

section Standing

variable {symbols : List String} {text : String} {cs : List Char}

/-- A word stands where it is the whole word. -/
theorem keyStands_word (hword : Text.isWord text = true) :
    KeyStands symbols text cs ↔ Text.leadingWord cs = text.toList := by
  rw [KeyStands, if_pos hword]

/-- A symbol stands where no longer symbol does. -/
theorem keyStands_symbol (hword : Text.isWord text = false) :
    KeyStands symbols text cs ↔ IsLongestSymbol symbols text cs := by
  rw [KeyStands, hword, if_neg Bool.false_ne_true]

theorem ne_empty_of_isWord (hword : Text.isWord text = true) : text ≠ "" := by
  rintro rfl
  cases hword

/-- A key term that stands is a beginning of the text. -/
theorem KeyStands.isPrefix (h : KeyStands symbols text cs) : text.toList <+: cs := by
  cases hword : Text.isWord text with
  | true =>
    rw [← (keyStands_word hword).mp h]
    exact Text.leadingWord_prefix cs
  | false => exact ((keyStands_symbol hword).mp h).1

end Standing

/-! ## Scanning -/

section Scanning

variable {lexicon : Lexicon} {text : String} {start stop : Cursor}

/-- A key term is scanned exactly where it stands, up to the end of its text. -/
theorem takes_key_iff {token : Matcher String} {found : String}
    (htoken : tokenText? lexicon (.key text) = some token) (htext : text ≠ "") :
    token.Takes start found stop ↔
      KeyStands lexicon.symbols text start.rest ∧ start.Spans stop text.toList ∧ found = text := by
  injection htoken with htoken
  subst htoken
  cases hword : Text.isWord text with
  | true =>
    rw [if_pos rfl, keyword, takes_checked, keyStands_word hword]
    constructor
    · rintro ⟨word, hwords, hok⟩
      split at hok
      · next heq =>
        injection hok with hfound
        subst heq hfound
        obtain ⟨hleading, _, hspans⟩ := takes_word_iff.mp hwords
        exact ⟨hleading, hspans, rfl⟩
      · cases hok
    · rintro ⟨hleading, hspans, rfl⟩
      exact ⟨found, takes_word_iff.mpr ⟨hleading, htext, hspans⟩, if_pos rfl⟩
  | false =>
    rw [if_neg Bool.false_ne_true, takes_symbol_iff, keyStands_symbol hword]
    refine and_congr_right fun _ => and_congr_right fun hspans => ?_
    obtain ⟨c, rest, hchars⟩ := List.exists_cons_of_ne_nil (mt String.toList_eq_nil_iff.mp htext)
    have hlt : start < stop := by
      rw [hchars] at hspans
      exact hspans.lt
    rw [Cursor.spanText_eq_between hlt, hspans.between_eq, String.ofList_toList]

/-- A key term is not scanned exactly where it does not stand. -/
theorem fails_key_iff {token : Matcher String}
    (htoken : tokenText? lexicon (.key text) = some token) (htext : text ≠ "") :
    token.Fails start ↔ ¬ KeyStands lexicon.symbols text start.rest := by
  constructor
  · intro hfails hstands
    obtain ⟨more, hmore⟩ := hstands.isPrefix
    obtain ⟨stop, hspans, _⟩ := Cursor.exists_spans hmore.symm
    exact ((takes_key_iff htoken htext).mpr ⟨hstands, hspans, rfl⟩).not_fails hfails
  · intro hstands
    rcases takes_or_fails_or_stalls token start with ⟨found, stop, h⟩ | h | h
    · exact absurd ((takes_key_iff htoken htext).mp h).1 hstands
    · exact h
    · exact absurd h (steady_token htoken).settles

/-- Where a reserved word stands, no identifier is scanned, whatever its letter case. -/
theorem fails_identifier_of_reserved {reserved : List String} {case : LetterCase} {word : String}
    (hreserved : word ∈ reserved) (hleading : Text.leadingWord start.rest = word.toList) :
    (identifier reserved case).Fails start := by
  rcases takes_or_fails_or_stalls (identifier reserved case) start with ⟨found, stop, h⟩ | h | h
  · obtain ⟨found', hword, hok⟩ := takes_checked.mp h
    have hfound : found' = word :=
      String.toList_inj.mp ((takes_word_iff.mp hword).1.symm.trans hleading)
    rw [hfound, if_pos (List.contains_iff_mem.mpr hreserved)] at hok
    cases hok
  · exact h
  · exact absurd h (steady_checked eager_word.steady).settles

end Scanning

/-! ## Key terms of a language -/

namespace Language

variable {language : Language} {room : ℕ} {index : TermIndex} {term : Term} {text : String}
  {start place stop : Cursor} {trees : List Tree}

/-- The symbols of a language are the texts of its key terms that are not words. -/
theorem mem_symbols {language : Language} {text : String} :
    text ∈ language.symbols ↔
      (∃ key ∈ language.keyTerms.records, key.text = text) ∧ text ≠ "" ∧
        Text.isWord text = false := by
  rw [symbols, List.mem_mergeSort, List.mem_eraseDups, List.mem_filter, List.mem_map]
  simp only [Array.mem_toList_iff, Bool.and_eq_true, Bool.not_eq_true', String.isEmpty_eq_false_iff]

/-- A key term that is flagged as reserved is a reserved word. -/
theorem mem_reserved {language : Language} {key : KeyTerm} (hkey : key ∈ language.keyTerms.records)
    (hflag : key.flags.has .reserved = true) : key.text ∈ language.reserved :=
  List.mem_map.mpr ⟨key, List.mem_filter.mpr ⟨Array.mem_toList_iff.mpr hkey, hflag⟩, rfl⟩

/-- A terminal is matched as its token, with what is skipped before it. -/
theorem taskMatcher_terminal {token : Matcher String} (hterm : language.term? index = some term)
    (htoken : tokenText? language.lexicon term.kind = some token) :
    language.taskMatcher room (.term index) = terminal language.comments index token := by
  rw [taskMatcher, matchTerm]
  simp only [hterm, htoken]
  rfl

section Terms

variable (hterm : language.term? index = some term) (hkind : term.kind = .key text)
  (htext : text ≠ "") (hskips : Skips language.comments start place)
include hterm hkind htext hskips

/-- A key term is taken exactly where it stands behind the trivia. -/
theorem takes_keyTerm_iff :
    (language.taskMatcher room (.term index)).Takes start trees stop ↔
      KeyStands language.symbols text place.rest ∧ place.Spans stop text.toList ∧
        trees = skipped start place ++ [.token (.term index) text] := by
  have htoken : ∃ token, tokenText? language.lexicon (.key text) = some token := ⟨_, rfl⟩
  obtain ⟨token, htoken⟩ := htoken
  rw [taskMatcher_terminal hterm (hkind ▸ htoken), takes_terminal]
  constructor
  · rintro ⟨middle, found, hskips', hfound, rfl⟩
    obtain rfl := hskips.unique hskips'
    obtain ⟨hstands, hspans, rfl⟩ := (takes_key_iff htoken htext).mp hfound
    exact ⟨hstands, hspans, rfl⟩
  · rintro ⟨hstands, hspans, rfl⟩
    exact ⟨place, text, hskips, (takes_key_iff htoken htext).mpr ⟨hstands, hspans, rfl⟩, rfl⟩

/-- A key term fails exactly where it does not stand behind the trivia. -/
theorem fails_keyTerm_iff :
    (language.taskMatcher room (.term index)).Fails start ↔
      ¬ KeyStands language.symbols text place.rest := by
  have htoken : ∃ token, tokenText? language.lexicon (.key text) = some token := ⟨_, rfl⟩
  obtain ⟨token, htoken⟩ := htoken
  rw [taskMatcher_terminal hterm (hkind ▸ htoken), fails_terminal]
  refine Iff.trans ?_ (fails_key_iff htoken htext)
  constructor
  · rintro ⟨middle, hskips', hfails⟩
    obtain rfl := hskips.unique hskips'
    exact hfails
  · exact fun hfails => ⟨place, hskips, hfails⟩

end Terms

/-- How the key terms of a language are scanned behind the trivia between two places. -/
structure ScansKeyTerms (language : Language) (room : ℕ) (start place : Cursor) : Prop where
  isSymbol : ∀ {text}, text ∈ language.symbols ↔
    (∃ key ∈ language.keyTerms.records, key.text = text) ∧ text ≠ "" ∧ Text.isWord text = false
  /-- The leading word is the longest of the words with which the text begins. -/
  longestWord : Text.leadingWord place.rest <+: place.rest ∧
    (Text.leadingWord place.rest ≠ [] → Text.isWordChars (Text.leadingWord place.rest) = true) ∧
    ∀ w, Text.isWordChars w = true → w <+: place.rest → w <+: Text.leadingWord place.rest
  symbol : ∀ {index term text}, language.term? index = some term → term.kind = .key text →
    text ∈ language.symbols → ∀ {trees stop},
      (language.taskMatcher room (.term index)).Takes start trees stop ↔
        IsLongestSymbol language.symbols text place.rest ∧ place.Spans stop text.toList ∧
          trees = skipped start place ++ [.token (.term index) text]
  noSymbol : ∀ {index term text}, language.term? index = some term → term.kind = .key text →
    text ∈ language.symbols →
      ((language.taskMatcher room (.term index)).Fails start ↔
        ¬ IsLongestSymbol language.symbols text place.rest)
  word : ∀ {index term text}, language.term? index = some term → term.kind = .key text →
    Text.isWord text = true → ∀ {trees stop},
      (language.taskMatcher room (.term index)).Takes start trees stop ↔
        Text.leadingWord place.rest = text.toList ∧ place.Spans stop text.toList ∧
          trees = skipped start place ++ [.token (.term index) text]
  noWord : ∀ {index term text}, language.term? index = some term → term.kind = .key text →
    Text.isWord text = true →
      ((language.taskMatcher room (.term index)).Fails start ↔
        Text.leadingWord place.rest ≠ text.toList)
  /-- At most one symbol and at most one word match. -/
  unique : ∀ {index index' term term' text text' trees trees' stop stop'},
    language.term? index = some term → term.kind = .key text →
    language.term? index' = some term' → term'.kind = .key text' →
    (text ∈ language.symbols ∧ text' ∈ language.symbols ∨
      Text.isWord text = true ∧ Text.isWord text' = true) →
    (language.taskMatcher room (.term index)).Takes start trees stop →
    (language.taskMatcher room (.term index')).Takes start trees' stop' → text = text'
  /-- Where the word of a reserved key term stands, there is no identifier of any letter case. -/
  noIdentifier : ∀ key ∈ language.keyTerms.records, key.flags.has .reserved = true →
    Text.leadingWord place.rest = key.text.toList →
    ∀ {index term case}, language.term? index = some term → term.kind = .identifier case →
      (language.taskMatcher room (.term index)).Fails start

/-- **Key terms.**  At every place behind trivia, a language scans a symbol exactly where it is the
longest one, and a word exactly where it is the longest one. -/
theorem scansKeyTerms (language : Language) (room : ℕ)
    (hskips : Skips language.comments start place) :
    language.ScansKeyTerms room start place where
  isSymbol := mem_symbols
  longestWord := ⟨Text.leadingWord_prefix _, Text.isWordChars_leadingWord,
    fun _ => Text.prefix_leadingWord⟩
  symbol hterm hkind hsymbol := by
    obtain ⟨_, htext, hword⟩ := mem_symbols.mp hsymbol
    rw [← keyStands_symbol hword]
    exact takes_keyTerm_iff hterm hkind htext hskips
  noSymbol hterm hkind hsymbol := by
    obtain ⟨_, htext, hword⟩ := mem_symbols.mp hsymbol
    rw [← keyStands_symbol hword]
    exact fails_keyTerm_iff hterm hkind htext hskips
  word hterm hkind hword := by
    rw [← keyStands_word hword]
    exact takes_keyTerm_iff hterm hkind (ne_empty_of_isWord hword) hskips
  noWord hterm hkind hword := by
    rw [ne_eq, ← keyStands_word hword]
    exact fails_keyTerm_iff hterm hkind (ne_empty_of_isWord hword) hskips
  unique hterm hkind hterm' hkind' hforms h h' := by
    -- Two symbols are both the longest one, and two words are both the word that stands there.
    rcases hforms with ⟨hsymbol, hsymbol'⟩ | ⟨hword, hword'⟩
    · obtain ⟨_, htext, hword⟩ := mem_symbols.mp hsymbol
      obtain ⟨_, htext', hword'⟩ := mem_symbols.mp hsymbol'
      have hlongest := ((takes_keyTerm_iff hterm hkind htext hskips).mp h).1
      have hlongest' := ((takes_keyTerm_iff hterm' hkind' htext' hskips).mp h').1
      rw [keyStands_symbol hword] at hlongest
      rw [keyStands_symbol hword'] at hlongest'
      exact hlongest.unique hlongest' hsymbol hsymbol'
    · have hleading :=
        ((takes_keyTerm_iff hterm hkind (ne_empty_of_isWord hword) hskips).mp h).1
      have hleading' :=
        ((takes_keyTerm_iff hterm' hkind' (ne_empty_of_isWord hword') hskips).mp h').1
      rw [keyStands_word hword] at hleading
      rw [keyStands_word hword'] at hleading'
      exact String.toList_inj.mp (hleading.symm.trans hleading')
  noIdentifier key hkey hflag hleading index term case hterm hkind := by
    have htoken : tokenText? language.lexicon term.kind =
        some (identifier language.reserved case) := by
      rw [hkind]
      rfl
    rw [taskMatcher_terminal hterm htoken, fails_terminal]
    exact ⟨place, hskips, fails_identifier_of_reserved (mem_reserved hkey hflag) hleading⟩

/-- The language of two symbols, of which one begins with the other. -/
def comparison : Language :=
  ofRule (.choice [.term firstSymbol, .term secondSymbol])
    [(firstSymbol, "<"), (secondSymbol, "<=")]

/-- Of two symbols the longer one is scanned. -/
theorem scansKeyTerms_comparison :
    Skips comparison.comments (.start "<=".toList) (.start "<=".toList) ∧
      comparison.ScansKeyTerms nestingLimit (.start "<=".toList) (.start "<=".toList) := by
  have hskips : Skips comparison.comments (.start "<=".toList) (.start "<=".toList) :=
    skips_self (by decide)
  exact ⟨hskips, scansKeyTerms comparison nestingLimit hskips⟩

end Language

end TypedGrammar
