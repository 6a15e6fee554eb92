import TypedGrammar.Language.Basic
import TypedGrammar.Matching.Matcher
import TypedGrammar.Text.CharacterClass

/-!
# Tokens

How the tokens of terminals are found in a text: trivia is skipped first, then a keyword, a symbol,
an identifier or a literal is matched.
-/

namespace TypedGrammar

/-- What a language says about its tokens as a whole. -/
structure Lexicon where
  symbols : List String
  reserved : List String
  comments : List Comment

/-- The lexicon of a language. -/
def Language.lexicon (language : Language) : Lexicon :=
  ⟨language.symbols, language.reserved, language.comments⟩

namespace Matcher

/-! ## Trivia -/

/-- Whether a character does not end a line. -/
def staysOnLine (c : Char) : Bool :=
  c != '\n' && c != '\r'

/-- The first of the given texts; `none` if there is no text. -/
def firstText? (texts : List String) : Option (Matcher Unit) :=
  match texts.map exactText with
  | [] => none
  | first :: rest => some (rest.foldl orElse first)

/-- One comment. A line comment stops before the line break, another one after the first of its
ends; without an end that is a text it goes on to the end of the input. -/
def comment (c : Comment) : Matcher Unit := do
  exactText c.start
  if c.isLine then
    let _ ← many (charWhere staysOnLine)
    return ()
  else
    match firstText? (c.ends.filter (!·.isEmpty)) with
    | some stop => skipPast stop
    | none =>
      let _ ← many (charWhere fun _ => true)
      return ()

/-- One character of white space, or one of the comments. -/
def triviaItem (comments : List Comment) : Matcher Unit :=
  let whiteSpace : Matcher Unit := do
    let _ ← charWhere Text.whiteSpace.contains
    return ()
  ((comments.filter (!·.start.isEmpty)).map comment).foldl orElse whiteSpace

/-- White space and comments, as one text if there are any. -/
def trivia (comments : List Comment) : Matcher (Option String) := do
  let (items, text) ← withText (many (triviaItem comments))
  return if items.isEmpty then none else some text

/-! ## Words and symbols -/

/-- The longest word. -/
def word : Matcher String := do
  let (_, text) ← withText do
    let _ ← charWhere Text.beginsWord
    many (charWhere Text.continuesWord)
  return text

/-- A word that is the given one. -/
def keyword (text : String) : Matcher String :=
  checked word fun found =>
    if found = text then .ok found else .error s!"expected `{text}`, found `{found}`"

/-- The symbols that begin with a text and are longer, the last in order first. -/
def longerSymbols (symbols : List String) (text : String) : List String :=
  (symbols.filter fun s =>
    text.utf8ByteSize < s.utf8ByteSize && text.toList.isPrefixOf s.toList).reverse

/-- A symbol, where none of the longer symbols stands that begin with it. -/
def symbol (symbols : List String) (text : String) : Matcher String :=
  let found (exact : Bool) (s : String) : Matcher Bool := do
    exactText s
    return exact
  let any := firstOr (found true text) ((longerSymbols symbols text).map (found false))
  checked (withText any) fun (exact, span) =>
    if exact then .ok span else .error s!"expected `{text}`"

/-- A word that is not reserved and obeys a rule for its letter case. -/
def identifier (reserved : List String) (case : LetterCase) : Matcher String :=
  checked word fun found =>
    if reserved.contains found then
      .error s!"`{found}` is reserved and cannot be used as an identifier"
    else if !case.allows found then
      .error s!"identifier `{found}` does not satisfy {case.display}"
    else .ok found

/-! ## Literals -/

/-- One or more decimal digits. -/
def digits : Matcher Unit := do
  let _ ← charWhere Char.isDigit
  let _ ← many (charWhere Char.isDigit)
  return ()

/-- A point and digits. -/
def fraction : Matcher Unit := do
  exactly ['.']
  digits

/-- An exponent mark, an optional sign and digits. -/
def exponent : Matcher Unit := do
  let _ ← oneOf ['e', 'E']
  let _ ← optional (oneOf ['+', '-'])
  digits

/-- Digits with an optional fraction and an optional exponent. -/
def number : Matcher Unit := do
  digits
  let _ ← optional fraction
  let _ ← optional exponent
  return ()

/-- One character of a quoted text, or a backslash and any character. -/
def quotedItem (quote : Char) : Matcher Unit :=
  let plain : Matcher Unit := do
    let _ ← charWhere fun c => c != quote && c != '\\'
    return ()
  let escaped : Matcher Unit := do
    exactly ['\\']
    let _ ← charWhere fun _ => true
    return ()
  orElse plain escaped

/-- A text between two quote characters. -/
def quoted (quote : Char) : Matcher Unit := do
  exactly [quote]
  let _ ← many (quotedItem quote)
  exactly [quote]

/-- A literal of a form. -/
def literal (form : LiteralForm) : Matcher String := do
  let (_, text) ← withText <|
    match form with
    | .integer => digits
    | .number => number
    | .quoted quote => quoted quote
  return text

/-! ## Terminals -/

/-- The text of a terminal; `none` if the term is a rule. -/
def tokenText? (lexicon : Lexicon) : TermKind → Option (Matcher String)
  | .key text => some (if Text.isWord text then keyword text else symbol lexicon.symbols text)
  | .identifier case => some (identifier lexicon.reserved case)
  | .literal form => some (literal form)
  | .rule _ => none

/-- Trivia as a token of its own, if there is any. -/
def triviaTokens (text : Option String) : List Tree :=
  match text with
  | some text => [.token .trivia text]
  | none => []

/-- The trivia before a token, and the token. -/
def terminal (comments : List Comment) (index : TermIndex) (token : Matcher String) :
    Matcher (List Tree) := do
  let skipped ← trivia comments
  let text ← token
  return triviaTokens skipped ++ [.token (.term index) text]

end Matcher

end TypedGrammar
