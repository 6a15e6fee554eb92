import TypedGrammar.Data.Basic
import TypedGrammar.Number

/-!
# Data from JSON text

A numeral with a fraction or an exponent is read as a floating-point number, and so is a whole one
that 64 bits cannot hold. Minus zero is one of the floating-point zeros.
-/

namespace TypedGrammar.Data

/-! ## Blanks and texts -/

/-- What follows the blanks. -/
def afterBlanks (cs : List Char) : List Char :=
  cs.dropWhile fun c => c = ' ' || c = '\n' || c = '\r' || c = '\t'

/-- The character that stands after a backslash for another one, or for itself. -/
def unescapedJsonChar? : Char → Option Char
  | '"' => some '"'
  | '\\' => some '\\'
  | '/' => some '/'
  | 'b' => some '\x08'
  | 'f' => some '\x0c'
  | 'n' => some '\n'
  | 'r' => some '\r'
  | 't' => some '\t'
  | _ => none

/-- Whether a number is the first half of a pair that stands for one character. -/
def isHighHalf (n : Nat) : Bool :=
  0xd800 ≤ n && n < 0xdc00

/-- Whether a number is the second half of such a pair. -/
def isLowHalf (n : Nat) : Bool :=
  0xdc00 ≤ n && n < 0xe000

/-- The character of a pair of halves. -/
def joinHalves (high low : Nat) : Char :=
  Char.ofNat (0x10000 + (high - 0xd800) * 0x400 + (low - 0xdc00))

/-- Reads a text up to its closing quote. The characters read so far come in reverse; `high` is the
first half of a pair whose second half must follow. -/
def readText (high : Option Nat) (read : List Char) :
    List Char → Option (String × List Char)
  | [] => none
  | '\\' :: 'u' :: a :: b :: c :: d :: rest =>
    match Number.readHex [a, b, c, d], high with
    | none, _ => none
    | some n, none =>
      if isHighHalf n then readText (some n) read rest
      else if isLowHalf n then none
      else readText none (Char.ofNat n :: read) rest
    | some n, some h =>
      if isLowHalf n then readText none (joinHalves h n :: read) rest else none
  | '\\' :: c :: rest =>
    match high, unescapedJsonChar? c with
    | none, some d => readText none (d :: read) rest
    | _, _ => none
  | c :: rest =>
    match high with
    | some _ => none
    | none =>
      if c = '"' then some (String.ofList read.reverse, rest)
      else readText none (c :: read) rest

/-! ## Numbers -/

/-- A number that continues `start` with as many of the digits as keep it below `2 ^ 64`, and how
many digits are left over. -/
def leadingDigits (start : Nat) : List Char → Nat × Nat
  | [] => (start, 0)
  | c :: rest =>
    let next := 10 * start + Number.digitValue c
    if next < UInt64.size then leadingDigits next rest else (start, rest.length + 1)

/-- The floating-point number of a numeral, given its digits before and after the point and its
exponent. -/
def floatOf (negative : Bool) (whole fraction : List Char) (exponent : Int) : Data :=
  let (significand, left) := leadingDigits 0 (whole ++ fraction)
  .float (.ofScaled negative significand (exponent - fraction.length + left))

/-- The number of a numeral without fraction and exponent. -/
def wholeOf (negative : Bool) (whole : List Char) : Data :=
  let n := Number.ofDigits 0 whole
  if negative then
    if n = 0 || Nat.pow 2 63 < n then floatOf true whole [] 0 else .integer (-n)
  else if n < UInt64.size then .integer n
  else floatOf false whole [] 0

/-- The digits of a fraction, if a point stands here, and what follows them. -/
def readFraction : List Char → Option (List Char) × List Char
  | '.' :: rest => (some (rest.takeWhile Char.isDigit), rest.dropWhile Char.isDigit)
  | rest => (none, rest)

/-- The exponent, if a mark of it stands here, and what follows it. -/
def readExponent (cs : List Char) : Option Int × List Char :=
  match cs with
  | mark :: rest =>
    if mark = 'e' || mark = 'E' then
      let (negative, rest) := Number.splitSign rest
      let n : Int := Number.ofDigits 0 (rest.takeWhile Char.isDigit)
      (some (if negative then -n else n), rest.dropWhile Char.isDigit)
    else (none, cs)
  | [] => (none, [])

/-- Reads a numeral. -/
def readNumber (cs : List Char) : Option (Data × List Char) :=
  let (negative, rest) :=
    match cs with
    | '-' :: rest => (true, rest)
    | rest => (false, rest)
  let whole := rest.takeWhile Char.isDigit
  if whole.isEmpty then none
  else
    let (fraction, rest) := readFraction (rest.dropWhile Char.isDigit)
    let (exponent, rest) := readExponent rest
    if fraction.isNone && exponent.isNone then some (wholeOf negative whole, rest)
    else some (floatOf negative whole (fraction.getD []) (exponent.getD 0), rest)

/-! ## Lists and records -/

/-- What follows a given text. -/
def after? (text : String) (cs : List Char) : Option (List Char) :=
  if text.toList.isPrefixOf cs then some (cs.drop text.length) else none

mutual

/-- Reads data; `fuel` bounds the number of steps on the way to the innermost part. -/
def readValue : Nat → List Char → Option (Data × List Char)
  | 0, _ => none
  | fuel + 1, cs =>
    match afterBlanks cs with
    | '"' :: rest => (readText none [] rest).map fun (s, rest) => (.text s, rest)
    | '[' :: rest =>
      match afterBlanks rest with
      | ']' :: rest => some (.list [], rest)
      | rest => (readItems fuel rest).map fun (items, rest) => (.list items, rest)
    | '\x7b' :: rest =>
      match afterBlanks rest with
      | '\x7d' :: rest => some (.record [], rest)
      | rest => (readFields fuel rest).map fun (fields, rest) => (ofFields fields, rest)
    | 'n' :: rest => (after? "ull" rest).map (Data.null, ·)
    | 't' :: rest => (after? "rue" rest).map (Data.bool true, ·)
    | 'f' :: rest => (after? "alse" rest).map (Data.bool false, ·)
    | rest => readNumber rest

/-- Reads the items of a list up to its closing bracket. -/
def readItems : Nat → List Char → Option (List Data × List Char)
  | 0, _ => none
  | fuel + 1, cs => do
    let (item, rest) ← readValue fuel cs
    match afterBlanks rest with
    | ',' :: rest =>
      let (more, rest) ← readItems fuel rest
      return (item :: more, rest)
    | ']' :: rest => return ([item], rest)
    | _ => none

/-- Reads the fields of a record up to its closing brace. -/
def readFields : Nat → List Char → Option (List (String × Data) × List Char)
  | 0, _ => none
  | fuel + 1, cs =>
    match afterBlanks cs with
    | '"' :: rest => do
      let (name, rest) ← readText none [] rest
      match afterBlanks rest with
      | ':' :: rest =>
        let (d, rest) ← readValue fuel rest
        match afterBlanks rest with
        | ',' :: rest =>
          let (more, rest) ← readFields fuel rest
          return ((name, d) :: more, rest)
        | '\x7d' :: rest => return ([(name, d)], rest)
        | _ => none
      | _ => none
    | _ => none

end

/-- The data that a JSON text stands for. Each step of reading is followed by one that takes a
character, so two steps for each character are enough. -/
def ofJson? (text : String) : Option Data :=
  let cs := text.toList
  match readValue (2 * cs.length + 2) cs with
  | some (d, rest) => if (afterBlanks rest).isEmpty then some d else none
  | none => none

end TypedGrammar.Data
