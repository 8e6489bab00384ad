import StakeChain.Toml.Basic
import StakeChain.Decimal.Binary64

/-!
# The words of TOML

Blanks, comments and line ends; the four kinds of strings; integers, floats and date-times.

* A comment or a string may not hold a control character other than tab.
* Basic strings know the escapes `\b \t \n \f \r \" \\`, `\uXXXX` and `\UXXXXXXXX` (a Unicode
  scalar value); multi-line basic strings also a backslash at a line's end, which drops the
  following blanks and line breaks (a carriage return counts only before a line feed).  A multi-line string drops a line break right after its
  opening delimiter, and up to two quotes may stand right before its closing one.
* An integer is decimal (optional sign, no leading zero) or `0x`, `0o`, `0b` with digits of
  that base; single underscores may stand between digits; it must fit 64 signed bits.
* A float is a decimal integer part with a fraction, an exponent or both, or `inf` / `nan`
  with an optional sign.  A float without a minus sign whose value rounds to infinity as a
  binary64 number is refused; a negative one is kept.
* A date-time is a local date, a local time, or a date and a time (joined by `T`, `t` or a
  blank) with an optional offset `Z` or `±HH:MM`; the seconds are required.
-/

set_option autoImplicit false

namespace StakeChain.Toml

/-- Blanks are spaces and tabs. -/
def isBlank (c : Char) : Bool := c = ' ' || c = '\t'

/-- The text after leading blanks. -/
def skipBlank : List Char → List Char
  | c :: rest => if isBlank c then skipBlank rest else c :: rest
  | [] => []

/-- Characters allowed unescaped in comments and strings: tab and all but control characters. -/
def isTextChar (c : Char) : Bool := c = '\t' || (c.toNat ≥ 0x20 && c.toNat ≠ 0x7F)

/-- The text from the end of a comment's line on. -/
def skipComment : List Char → Option (List Char)
  | [] => some []
  | '\n' :: rest => some ('\n' :: rest)
  | '\r' :: '\n' :: rest => some ('\r' :: '\n' :: rest)
  | c :: rest => if isTextChar c then skipComment rest else none

/-- The text after a line break. -/
def newline? : List Char → Option (List Char)
  | '\n' :: rest => some rest
  | '\r' :: '\n' :: rest => some rest
  | _ => none

/-- The text after the end of an expression's line: blanks, an optional comment, and a line
break or the end of the text. -/
def lineEnd (cs : List Char) : Option (List Char) := do
  let cs ← match skipBlank cs with
    | '#' :: rest => skipComment rest
    | cs => some cs
  match cs with
  | [] => pure []
  | cs => newline? cs

/-- The text after blanks, comments and line breaks, as between the items of an array;
`inComment` is set inside a comment. -/
def skipFiller : Bool → List Char → Option (List Char)
  | _, [] => some []
  | _, '\n' :: rest => skipFiller false rest
  | _, '\r' :: '\n' :: rest => skipFiller false rest
  | true, c :: rest => if isTextChar c then skipFiller true rest else none
  | false, ' ' :: rest | false, '\t' :: rest => skipFiller false rest
  | false, '#' :: rest => skipFiller true rest
  | false, cs => some cs

/-- The value of a digit in base `radix`. -/
def digitValue (radix : Nat) (c : Char) : Option Nat :=
  let v := if '0' ≤ c ∧ c ≤ '9' then some (c.toNat - 48)
    else if 'a' ≤ c ∧ c ≤ 'f' then some (c.toNat - 87)
    else if 'A' ≤ c ∧ c ≤ 'F' then some (c.toNat - 55)
    else none
  match v with
  | some d => if d < radix then some d else none
  | none => none

/-- Digits in base `radix` with single underscores between them, added to `acc`; `afterDigit`
says whether the previous character was a digit.  Empty text and misplaced underscores fail. -/
def underscored (radix : Nat) : List Char → Nat → Bool → Option Nat
  | [], acc, afterDigit => if afterDigit then some acc else none
  | '_' :: rest, acc, afterDigit => if afterDigit then underscored radix rest acc false else none
  | c :: rest, acc, _ =>
    match digitValue radix c with
    | some d => underscored radix rest (acc * radix + d) true
    | none => none

/-- A decimal integer with an optional sign and no leading zero. -/
def decimal? (cs : List Char) : Option Int :=
  let (negative, body) := match cs with
    | '+' :: rest => (false, rest)
    | '-' :: rest => (true, rest)
    | _ => (false, cs)
  match body with
  | '0' :: _ :: _ => none
  | _ => (underscored 10 body 0 false).map fun n => if negative then -(n : Int) else n

/-- An integer in any of its notations, of any size. -/
def integer? : List Char → Option Int
  | '0' :: 'x' :: rest => (underscored 16 rest 0 false).map Int.ofNat
  | '0' :: 'o' :: rest => (underscored 8 rest 0 false).map Int.ofNat
  | '0' :: 'b' :: rest => (underscored 2 rest 0 false).map Int.ofNat
  | cs => decimal? cs

/-- Whether an integer fits 64 signed bits. -/
def fitsInt64 (n : Int) : Bool := -9223372036854775808 ≤ n && n < 9223372036854775808

/-- Whether a text is an exponent after its `e`: an optional sign and digits. -/
def isExponent : List Char → Bool
  | '+' :: rest | '-' :: rest => (underscored 10 rest 0 false).isSome
  | cs => (underscored 10 cs 0 false).isSome

/-- Whether a text is a float. -/
def isFloat (cs : List Char) : Bool :=
  let unsigned := match cs with
    | '+' :: rest | '-' :: rest => rest
    | _ => cs
  if unsigned = ['i', 'n', 'f'] || unsigned = ['n', 'a', 'n'] then true
  else
    let isMark (c : Char) := c = '.' || c = 'e' || c = 'E'
    let whole := cs.takeWhile (fun c => !isMark c)
    let tail := cs.dropWhile (fun c => !isMark c)
    (decimal? whole).isSome &&
    match tail with
    | '.' :: rest =>
      let frac := rest.takeWhile (fun c => c ≠ 'e' && c ≠ 'E')
      (underscored 10 frac 0 false).isSome &&
      match rest.dropWhile (fun c => c ≠ 'e' && c ≠ 'E') with
      | [] => true
      | _ :: ex => isExponent ex
    | 'e' :: ex | 'E' :: ex => isExponent ex
    | _ => false

/-- The value of a decimal float's text without its sign, as `(m, e)` for `m · 10^e`. -/
def floatValue (cs : List Char) : Nat × Int :=
  let digitsOf (xs : List Char) := xs.filter Char.isDigit
  let value (xs : List Char) : Nat := xs.foldl (fun acc c => acc * 10 + (c.toNat - 48)) 0
  let isMark (c : Char) := c = '.' || c = 'e' || c = 'E'
  let isExp (c : Char) := c = 'e' || c = 'E'
  let whole := digitsOf (cs.takeWhile (fun c => !isMark c))
  let (frac, ex) := match cs.dropWhile (fun c => !isMark c) with
    | '.' :: rest => (digitsOf (rest.takeWhile (fun c => !isExp c)),
        (rest.dropWhile (fun c => !isExp c)).drop 1)
    | _ :: ex => ([], ex)
    | [] => ([], [])
  let e : Int := match ex with
    | '-' :: ds => -(value (digitsOf ds) : Int)
    | ds => (value (digitsOf ds) : Int)
  (value (whole ++ frac), e - frac.length)

/-- Whether a float's text is positive and too large for a binary64 number. -/
def floatOverflows (cs : List Char) : Bool :=
  match cs with
  | '-' :: _ => false
  | '+' :: rest | rest =>
    if rest = ['i', 'n', 'f'] || rest = ['n', 'a', 'n'] then false
    else
      let (m, e) := floatValue rest
      Decimal.overflowsBinary64 m e

/-- The value of two decimal digits. -/
def twoDigits (a b : Char) : Option Nat := do
  pure ((← digitValue 10 a) * 10 + (← digitValue 10 b))

/-- The number of days of a month. -/
def daysInMonth (year month : Nat) : Nat :=
  if month = 2 then
    if year % 4 = 0 && (year % 100 ≠ 0 || year % 400 = 0) then 29 else 28
  else if month = 4 || month = 6 || month = 9 || month = 11 then 30
  else 31

/-- The text after a full date `YYYY-MM-DD`. -/
def date? : List Char → Option (List Char)
  | y1 :: y2 :: y3 :: y4 :: '-' :: m1 :: m2 :: '-' :: d1 :: d2 :: rest => do
    let year := (← twoDigits y1 y2) * 100 + (← twoDigits y3 y4)
    let month ← twoDigits m1 m2
    let day ← twoDigits d1 d2
    if 1 ≤ month && month ≤ 12 && 1 ≤ day && day ≤ daysInMonth year month then pure rest
    else none
  | _ => none

/-- The text after a time `HH:MM:SS` with an optional fraction of a second. -/
def time? : List Char → Option (List Char)
  | h1 :: h2 :: ':' :: m1 :: m2 :: ':' :: s1 :: s2 :: rest => do
    let h ← twoDigits h1 h2
    let m ← twoDigits m1 m2
    let s ← twoDigits s1 s2
    if h ≤ 23 && m ≤ 59 && s ≤ 60 then
      match rest with
      | '.' :: frac =>
        let ds := frac.takeWhile Char.isDigit
        if ds.isEmpty then none else pure (frac.dropWhile Char.isDigit)
      | _ => pure rest
    else none
  | _ => none

/-- Whether a text is an offset `Z` or `±HH:MM`, or empty. -/
def isOffset : List Char → Bool
  | [] | ['Z'] | ['z'] => true
  | ['+', h1, h2, ':', m1, m2] | ['-', h1, h2, ':', m1, m2] =>
    match twoDigits h1 h2, twoDigits m1 m2 with
    | some h, some m => h ≤ 23 && m ≤ 59
    | _, _ => false
  | _ => false

/-- Whether a text is a date-time, a local date or a local time. -/
def isDateTime (cs : List Char) : Bool :=
  match date? cs with
  | some [] => true
  | some ('T' :: rest) | some ('t' :: rest) | some (' ' :: rest) =>
    match time? rest with
    | some off => isOffset off
    | none => false
  | some _ => false
  | none => time? cs = some []

/-- Characters of a bare scalar: numbers, date-times and the words of floats. -/
def isScalarChar (c : Char) : Bool :=
  c.isAlphanum || c = '+' || c = '-' || c = '.' || c = '_' || c = ':'

/-- A number or date-time at the start of the text. -/
def scalar? (cs : List Char) : Option (Toml × List Char) :=
  let tok := cs.takeWhile isScalarChar
  let rest := cs.dropWhile isScalarChar
  if tok.isEmpty then none
  else if date? tok = some [] then
    match rest with
    | ' ' :: a :: b :: ':' :: _ =>
      if a.isDigit && b.isDigit then
        let more := (rest.drop 1).takeWhile isScalarChar
        let whole := tok ++ ' ' :: more
        if isDateTime whole then some (.datetime (String.ofList whole), (rest.drop 1).dropWhile isScalarChar)
        else none
      else some (.datetime (String.ofList tok), rest)
    | _ => some (.datetime (String.ofList tok), rest)
  else if isDateTime tok then some (.datetime (String.ofList tok), rest)
  else
    match integer? tok with
    | some n => if fitsInt64 n then some (.int n, rest) else none
    | none =>
      if isFloat tok && !floatOverflows tok then some (.float (String.ofList tok), rest) else none

/-- The character of a one-letter escape. -/
def shortEscape : Char → Option Char
  | '"' => some '"'
  | '\\' => some '\\'
  | 'b' => some '\x08'
  | 'f' => some '\x0c'
  | 'n' => some '\n'
  | 'r' => some '\r'
  | 't' => some '\t'
  | _ => none

/-- The character of a `\u` or `\U` escape with these digits, if they name a scalar value. -/
def unicodeEscape (ds : List Char) : Option Char := do
  let n ← ds.foldlM (fun acc c => (fun d => acc * 16 + d) <$> digitValue 16 c) 0
  if n < 0xD800 || (0xE000 ≤ n && n ≤ 0x10FFFF) then pure (Char.ofNat n) else none

/-- The body of a basic string after its opening quote, up to and past the closing quote. -/
def basicBody : List Char → List Char → Option (String × List Char)
  | [], _ => none
  | '"' :: rest, acc => some (String.ofList acc.reverse, rest)
  | '\\' :: 'u' :: a :: b :: c :: d :: rest, acc =>
    match unicodeEscape [a, b, c, d] with
    | some ch => basicBody rest (ch :: acc)
    | none => none
  | '\\' :: 'U' :: a :: b :: c :: d :: e :: f :: g :: h :: rest, acc =>
    match unicodeEscape [a, b, c, d, e, f, g, h] with
    | some ch => basicBody rest (ch :: acc)
    | none => none
  | '\\' :: c :: rest, acc =>
    match shortEscape c with
    | some ch => basicBody rest (ch :: acc)
    | none => none
  | c :: rest, acc => if isTextChar c then basicBody rest (c :: acc) else none

/-- The body of a literal string after its opening quote, up to and past the closing quote. -/
def literalBody : List Char → List Char → Option (String × List Char)
  | [], _ => none
  | '\'' :: rest, acc => some (String.ofList acc.reverse, rest)
  | c :: rest, acc => if isTextChar c then literalBody rest (c :: acc) else none

/-- The text after a line break that directly follows a multi-line string's opening. -/
def dropFirstNewline (cs : List Char) : List Char := (newline? cs).getD cs

/-- The text after blanks and line breaks. -/
def skipBlankLines : List Char → List Char
  | ' ' :: rest | '\t' :: rest | '\n' :: rest => skipBlankLines rest
  | '\r' :: '\n' :: rest => skipBlankLines rest
  | cs => cs

/-- The body of a multi-line basic string up to and past its closing quotes; `fuel` bounds
the characters read. -/
def mlBasicBody : Nat → List Char → List Char → Option (String × List Char)
  | 0, _, _ => none
  | _ + 1, [], _ => none
  | _ + 1, '"' :: '"' :: '"' :: '"' :: '"' :: rest, acc =>
    some (String.ofList ('"' :: '"' :: acc).reverse, rest)
  | _ + 1, '"' :: '"' :: '"' :: '"' :: rest, acc => some (String.ofList ('"' :: acc).reverse, rest)
  | _ + 1, '"' :: '"' :: '"' :: rest, acc => some (String.ofList acc.reverse, rest)
  | fuel + 1, '\\' :: rest, acc =>
    match newline? (skipBlank rest) with
    | some _ => mlBasicBody fuel (skipBlankLines rest) acc
    | none =>
      match rest with
      | 'u' :: a :: b :: c :: d :: more =>
        (unicodeEscape [a, b, c, d]).bind fun ch => mlBasicBody fuel more (ch :: acc)
      | 'U' :: a :: b :: c :: d :: e :: f :: g :: h :: more =>
        (unicodeEscape [a, b, c, d, e, f, g, h]).bind fun ch => mlBasicBody fuel more (ch :: acc)
      | c :: more => (shortEscape c).bind fun ch => mlBasicBody fuel more (ch :: acc)
      | [] => none
  | fuel + 1, '\r' :: '\n' :: rest, acc => mlBasicBody fuel rest ('\n' :: acc)
  | fuel + 1, '\n' :: rest, acc => mlBasicBody fuel rest ('\n' :: acc)
  | fuel + 1, c :: rest, acc => if isTextChar c then mlBasicBody fuel rest (c :: acc) else none

/-- The body of a multi-line literal string up to and past its closing quotes. -/
def mlLiteralBody : List Char → List Char → Option (String × List Char)
  | [], _ => none
  | '\'' :: '\'' :: '\'' :: '\'' :: '\'' :: rest, acc =>
    some (String.ofList ('\'' :: '\'' :: acc).reverse, rest)
  | '\'' :: '\'' :: '\'' :: '\'' :: rest, acc => some (String.ofList ('\'' :: acc).reverse, rest)
  | '\'' :: '\'' :: '\'' :: rest, acc => some (String.ofList acc.reverse, rest)
  | '\r' :: '\n' :: rest, acc => mlLiteralBody rest ('\n' :: acc)
  | '\n' :: rest, acc => mlLiteralBody rest ('\n' :: acc)
  | c :: rest, acc => if isTextChar c then mlLiteralBody rest (c :: acc) else none

/-- A string of any of the four kinds at the start of the text. -/
def string? : List Char → Option (String × List Char)
  | '"' :: '"' :: '"' :: rest =>
    let body := dropFirstNewline rest
    mlBasicBody (body.length + 1) body []
  | '"' :: rest => basicBody rest []
  | '\'' :: '\'' :: '\'' :: rest => mlLiteralBody (dropFirstNewline rest) []
  | '\'' :: rest => literalBody rest []
  | _ => none

end StakeChain.Toml
