/-!
# Numbers

Decimal and hexadecimal numerals, integers of 32 and 64 bits, and double-precision numbers.
-/

namespace TypedGrammar.Number

/-! ## Decimal numerals

Reading decimal digits, whole numbers with a sign, and numerals with a fraction and an exponent. -/

/-- The value of a decimal digit. -/
def digitValue (c : Char) : Nat :=
  c.toNat - '0'.toNat

/-- The number that the digits, most significant first, continue from `start`. -/
def ofDigits (start : Nat) (digits : List Char) : Nat :=
  digits.foldl (fun n c => 10 * n + digitValue c) start

/-- A sign, if there is one, and what follows it; the flag tells a minus. -/
def splitSign : List Char → Bool × List Char
  | '-' :: rest => (true, rest)
  | '+' :: rest => (false, rest)
  | rest => (false, rest)

/-- A whole number: an optional sign, then one or more decimal digits and nothing else. -/
def readInteger (text : List Char) : Option Int :=
  match splitSign text with
  | (_, []) => none
  | (negative, digits) =>
    if digits.all Char.isDigit then
      some (if negative then -(ofDigits 0 digits : Int) else ofDigits 0 digits)
    else none

/-- A signed decimal number `significand · 10 ^ exponent`. -/
structure Decimal where
  negative : Bool
  significand : Nat
  exponent : Int
  deriving DecidableEq, Repr

/-- The exponent of a numeral: nothing, or a mark followed by a whole number. -/
def readExponent : List Char → Option Int
  | [] => some 0
  | mark :: rest => if mark = 'e' || mark = 'E' then readInteger rest else none

/-- A numeral without its sign: digits with a point among, before or after them, then an optional
exponent; there is at least one digit. -/
def readUnsigned (negative : Bool) (text : List Char) : Option Decimal :=
  let whole := text.takeWhile Char.isDigit
  let afterWhole := text.dropWhile Char.isDigit
  let (fraction, tail) :=
    match afterWhole with
    | '.' :: rest => (rest.takeWhile Char.isDigit, rest.dropWhile Char.isDigit)
    | rest => ([], rest)
  if whole.isEmpty && fraction.isEmpty then none
  else
    (readExponent tail).map fun exponent =>
      ⟨negative, ofDigits 0 (whole ++ fraction), exponent - fraction.length⟩

/-- A numeral with an optional sign. -/
def Decimal.read (text : List Char) : Option Decimal :=
  let (negative, rest) := splitSign text
  readUnsigned negative rest

/-! ## Hexadecimal digits

Numbers in base 16, as they stand for bits and for code points. -/

/-- The hexadecimal digits of a number, with zeros in front up to a width. -/
def hexDigits (width n : Nat) : List Char :=
  let digits := Nat.toDigits 16 n
  List.replicate (width - digits.length) '0' ++ digits

/-- The value of a hexadecimal digit. -/
def hexDigit? (c : Char) : Option Nat :=
  if c.isDigit then some (c.toNat - '0'.toNat)
  else if 'a' ≤ c ∧ c ≤ 'f' then some (c.toNat - 'a'.toNat + 10)
  else if 'A' ≤ c ∧ c ≤ 'F' then some (c.toNat - 'A'.toNat + 10)
  else none

/-- The number that hexadecimal digits stand for. -/
def readHex (digits : List Char) : Option Nat :=
  digits.foldlM (fun n c => (hexDigit? c).map (16 * n + ·)) 0

/-! ## Bounded integers

Integers of 32 and 64 bits: which numbers fit, how they are read, and arithmetic that refuses a
result which does not fit. -/

/-- The 64-bit integer equal to `n`, if there is one. -/
def toInt64? (n : Int) : Option Int64 :=
  if Int64.minValue.toInt ≤ n ∧ n ≤ Int64.maxValue.toInt then some (Int64.ofInt n) else none

/-- The 32-bit integer equal to `n`, if there is one. -/
def toInt32? (n : Int) : Option Int32 :=
  if Int32.minValue.toInt ≤ n ∧ n ≤ Int32.maxValue.toInt then some (Int32.ofInt n) else none

/-- Reads a whole number that fits 64 bits. -/
def readInt64 (text : List Char) : Option Int64 :=
  (readInteger text).bind toInt64?

/-- Reads a whole number that fits 32 bits. -/
def readInt32 (text : List Char) : Option Int32 :=
  (readInteger text).bind toInt32?

/-- The power of a 64-bit integer, for exponents of at most 32 bits. A large exponent is not
computed: except for 0, 1 and -1 its power does not fit. -/
def power? (base exponent : Int64) : Option Int64 :=
  let n := exponent.toInt
  if n < 0 ∨ UInt32.size ≤ n then none
  else if base.toInt = 0 then some (if n = 0 then 1 else 0)
  else if base.toInt = 1 then some 1
  else if base.toInt = -1 then some (if n % 2 = 0 then 1 else -1)
  else if 64 ≤ n then none
  else toInt64? (Int.pow base.toInt n.toNat)

/-! ## Binary floating-point numbers

Double-precision numbers by their bits: what a finite one is worth, when two are equal, how a
decimal numeral is rounded to the nearest one, and the shortest decimal that reads back.

Every finite magnitude is a whole multiple of the smallest one, `2 ^ (-1074)`; all arithmetic here
is exact arithmetic on such multiples. -/

/-- A double-precision number: sign, 11 bits of biased exponent and 52 bits of fraction. -/
structure Binary64 where
  bits : UInt64
  deriving DecidableEq, Repr

/-- Which of two decimals is taken when a number lies in the middle between them. -/
inductive Tie
  /-- The larger one. -/
  | up
  /-- The one whose last digit is even. -/
  | even
  deriving DecidableEq, Repr

/-- How numbers are laid out as text. Of two shortest decimals that are equally near, `tie` takes
one. Numbers whose leading digit has an exponent from `least` to `greatest` are written out, the
others with an exponent, before which `plus` puts the sign of positive ones. -/
structure Layout where
  tie : Tie
  least : Int
  greatest : Int
  plus : Bool

namespace Binary64

/-- The number with the given sign and the remaining 63 bits. -/
def ofParts (negative : Bool) (rest : Nat) : Binary64 :=
  ⟨UInt64.ofNat (if negative then rest + Nat.pow 2 63 else rest)⟩

/-- The bits of infinity, apart from the sign. -/
def infinityBits : Nat := 2047 * Nat.pow 2 52

/-- The bits of the number that is not a number, apart from the sign. -/
def nanBits : Nat := 4095 * Nat.pow 2 51

/-- Whether the sign bit is set. -/
def isNegative (x : Binary64) : Bool :=
  Nat.pow 2 63 ≤ x.bits.toNat

/-- All bits but the sign: larger magnitudes have larger ones. -/
def magnitudeBits (x : Binary64) : Nat :=
  x.bits.toNat % Nat.pow 2 63

/-- Whether the bits stand for no number. -/
def isNaN (x : Binary64) : Bool :=
  infinityBits < x.magnitudeBits

/-- Whether the bits stand for one of the two infinities. -/
def isInfinite (x : Binary64) : Bool :=
  x.magnitudeBits = infinityBits

/-- Numerical equality: the two zeros are equal, and what is not a number equals nothing. -/
def equal (x y : Binary64) : Bool :=
  !x.isNaN && !y.isNaN && (x.bits = y.bits || (x.magnitudeBits = 0 && y.magnitudeBits = 0))

/-- The significand and the binary exponent of a finite magnitude, counted from the smallest
magnitude: the number is worth `significand · 2 ^ (shift - 1074)`. -/
def parts (magnitude : Nat) : Nat × Nat :=
  if magnitude / Nat.pow 2 52 = 0 then (magnitude, 0)
  else (Nat.pow 2 52 + magnitude % Nat.pow 2 52, magnitude / Nat.pow 2 52 - 1)

/-! ### Rounding a quotient -/

/-- The whole number nearest to `num / den`; a half goes to the even neighbour. -/
def roundQuotient (num den : Nat) : Nat :=
  let q := num / den
  let twice := 2 * (num % den)
  if twice < den then q
  else if den < twice then q + 1
  else if q % 2 = 0 then q else q + 1

/-- The shift that leaves 53 significant bits of `num / den`, a count of smallest magnitudes; small
counts are not shifted. -/
def shiftFor (num den : Nat) : Nat :=
  let guess := (num / den).log2 - 52
  if num / (den * Nat.pow 2 guess) < Nat.pow 2 53 then guess else guess + 1

/-- The bits of the magnitude nearest to `num / den` smallest magnitudes. Rounding up to the next
power of two carries into the exponent, which is what the layout of the bits is made for. -/
def roundedBits (num den : Nat) : Nat :=
  let shift := shiftFor num den
  let significand := roundQuotient num (den * Nat.pow 2 shift)
  min infinityBits (if shift = 0 then significand else shift * Nat.pow 2 52 + significand)

/-- The number nearest to a decimal one. Exponents far outside the range are cut off first, so
that no huge power is computed. -/
def ofDecimal (d : Decimal) : Binary64 :=
  let digits := (Nat.toDigits 10 d.significand).length
  let magnitude :=
    if d.significand = 0 then 0
    else if d.exponent + digits < -400 then 0
    else if 400 < d.exponent + digits then infinityBits
    else if 0 ≤ d.exponent then
      roundedBits (d.significand * Nat.pow 10 d.exponent.toNat * Nat.pow 2 1074) 1
    else roundedBits (d.significand * Nat.pow 2 1074) (Nat.pow 10 (-d.exponent).toNat)
  ofParts d.negative magnitude

/-- Reads a numeral, or one of the names of infinity and of the number that is not a number, in any
letter case. -/
def read (text : List Char) : Option Binary64 :=
  match Decimal.read text with
  | some d => some (ofDecimal d)
  | none =>
    let (negative, rest) := splitSign text
    let name := String.ofList (rest.map Char.toLower)
    if name = "inf" || name = "infinity" then some (ofParts negative infinityBits)
    else if name = "nan" then some (ofParts negative nanBits)
    else none

/-! ### Scaling by powers of ten -/

/-- The magnitude nearest to the product of two. -/
def product (a b : Nat) : Nat :=
  let (m, s) := parts a
  let (n, t) := parts b
  roundedBits (m * n * Nat.pow 2 (s + t)) (Nat.pow 2 1074)

/-- The magnitude nearest to the quotient of two. -/
def quotient (a b : Nat) : Nat :=
  let (m, s) := parts a
  let (n, t) := parts b
  roundedBits (m * Nat.pow 2 (s + 1074)) (n * Nat.pow 2 t)

/-- The magnitude nearest to a whole number. -/
def wholeBits (n : Nat) : Nat :=
  roundedBits (n * Nat.pow 2 1074) 1

/-- The greatest power of ten that a number can hold. -/
def maxTenPower : Nat := 308

/-- A magnitude divided by a power of ten, in steps that a number can hold. -/
def divideByTenPower (magnitude power : Nat) : Nat :=
  if _ : maxTenPower < power then
    if magnitude = 0 then 0
    else
      divideByTenPower (quotient magnitude (wholeBits (Nat.pow 10 maxTenPower)))
        (power - maxTenPower)
  else quotient magnitude (wholeBits (Nat.pow 10 power))
termination_by power
decreasing_by simp only [maxTenPower] at *; omega

/-- The number `significand · 10 ^ exponent`, its two factors rounded before their product or
quotient is; short significands and small exponents are exact, so that nothing is rounded twice. -/
def ofScaled (negative : Bool) (significand : Nat) (exponent : Int) : Binary64 :=
  let start := wholeBits significand
  ofParts negative <|
    if start = 0 then 0
    else if maxTenPower < exponent then infinityBits
    else if 0 ≤ exponent then product start (wholeBits (Nat.pow 10 exponent.toNat))
    else divideByTenPower start (-exponent).toNat

/-! ### Shortest decimal -/

/-- A candidate `digits · 10 ^ exponent` for the shortest decimal. -/
structure Candidate where
  digits : Nat
  exponent : Int
  deriving DecidableEq, Repr

/-- The magnitude bits to which a candidate rounds. -/
def Candidate.rounded (c : Candidate) : Nat :=
  (ofDecimal ⟨false, c.digits, c.exponent⟩).magnitudeBits

/-- `significand · 2 ^ (shift - 1074) / 10 ^ exponent` as a fraction. -/
def scaledFraction (significand shift : Nat) (exponent : Int) : Nat × Nat :=
  let num := significand * Nat.pow 2 shift
  if 0 ≤ exponent then (num, Nat.pow 2 1074 * Nat.pow 10 exponent.toNat)
  else (num * Nat.pow 10 (-exponent).toNat, Nat.pow 2 1074)

/-- Whether the lower neighbour of `num / den` among the whole numbers is preferred to the upper
one: it is nearer, or as near and chosen by the rule for ties. -/
def prefersBelow (tie : Tie) (num den : Nat) : Bool :=
  let twice := 2 * (num % den)
  twice < den || (twice = den && tie = .even && num / den % 2 = 0)

/-- The neighbours of a magnitude on the grid of multiples of `10 ^ exponent`, the preferred one
first. -/
def gridNeighbours (tie : Tie) (significand shift : Nat) (exponent : Int) : List Candidate :=
  let (num, den) := scaledFraction significand shift exponent
  let below := num / den
  if prefersBelow tie num den then [⟨below, exponent⟩, ⟨below + 1, exponent⟩]
  else [⟨below + 1, exponent⟩, ⟨below, exponent⟩]

/-- The first candidate that reads back, from the coarsest grid on; `count` grids are tried. -/
def searchGrids (tie : Tie) (magnitude significand shift : Nat) : Nat → Int → Candidate
  | 0, exponent => ⟨0, exponent⟩
  | count + 1, exponent =>
    match (gridNeighbours tie significand shift exponent).find? (·.rounded = magnitude) with
    | some c => c
    | none => searchGrids tie magnitude significand shift count (exponent - 1)

/-- The decimal exponent of the leading digit of a magnitude, or one more than it. -/
def leadingExponent (significand shift : Nat) : Int :=
  let whole := significand * Nat.pow 2 shift * Nat.pow 10 350 / Nat.pow 2 1074
  (Nat.toDigits 10 whole).length - 350

/-- Removes zeros from the end of the digits. -/
def trimZeros : List Char → List Char
  | [] => []
  | c :: rest =>
    match trimZeros rest with
    | [] => if c = '0' then [] else [c]
    | kept => c :: kept

/-- The fewest digits that read back as a finite magnitude other than zero, and the exponent of the
leading one. -/
def shortest (tie : Tie) (magnitude : Nat) : List Char × Int :=
  let (significand, shift) := parts magnitude
  let c := searchGrids tie magnitude significand shift 20 (leadingExponent significand shift)
  let digits := Nat.toDigits 10 c.digits
  (trimZeros digits, c.exponent + digits.length - 1)

/-- Digits with a point after the digit of exponent 0, and at least one digit on each side. -/
def positional (digits : List Char) (exponent : Int) : List Char :=
  if exponent < 0 then
    ['0', '.'] ++ List.replicate (-exponent - 1).toNat '0' ++ digits
  else
    let count := exponent.toNat + 1
    let whole := digits.take count ++ List.replicate (count - digits.length) '0'
    match digits.drop count with
    | [] => whole ++ ['.', '0']
    | fraction => whole ++ '.' :: fraction

/-- Digits with a point after the first one, if there are more, and the exponent; `plus` says
whether a positive exponent has a sign. -/
def scientific (plus : Bool) (digits : List Char) (exponent : Int) : List Char :=
  let sign := if plus && 0 < exponent then ['+'] else []
  let tail := 'e' :: (sign ++ (toString exponent).toList)
  match digits with
  | [] => []
  | [d] => d :: tail
  | d :: rest => d :: '.' :: rest ++ tail

/-- A number as text: the fewest digits that read back, in a given layout. -/
def format (layout : Layout) (x : Binary64) : String :=
  if x.isNaN then "NaN"
  else
    let sign := if x.isNegative then "-" else ""
    if x.isInfinite then sign ++ "inf"
    else if x.magnitudeBits = 0 then sign ++ "0.0"
    else
      let (digits, exponent) := shortest layout.tie x.magnitudeBits
      let text :=
        if layout.least ≤ exponent && exponent ≤ layout.greatest then positional digits exponent
        else scientific layout.plus digits exponent
      sign ++ String.ofList text

/-- A number in messages: written out for magnitudes from `10 ^ (-4)` to below `10 ^ 16`, and with
an exponent otherwise; ties go up. -/
def display (x : Binary64) : String :=
  x.format ⟨.up, -4, 15, false⟩

end Binary64

end TypedGrammar.Number
