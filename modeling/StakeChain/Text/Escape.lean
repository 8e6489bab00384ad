import StakeChain.Text.Printable
import StakeChain.Text.GraphemeExtend

/-!
# Escaped text in messages

Error messages quote offending input: a single character between apostrophes, a whole string
between double quotes.  Inside the quotes a backslash introduces an escape:

* the usual short escapes for NUL, tab, line feed, carriage return and the backslash;
* the quote that delimits the text (an apostrophe around a character, a double quote around a
  string) is escaped, the other one is not;
* a character that does not print (`isPrintable`), and a grapheme extender
  (`isGraphemeExtend`), which would otherwise join the character before it, is written as its
  code point in lowercase hexadecimal, `\u{7f}`.
-/

set_option autoImplicit false

namespace StakeChain.Text

/-- Lowercase hexadecimal digits of a number, without leading zeros (`0` for zero). -/
def hexDigits (n : Nat) : String :=
  String.ofList (Nat.toDigits 16 n)

/-- Characters that are written as a code-point escape. -/
def needsCodeEscape (c : Char) : Bool := isGraphemeExtend c || !isPrintable c

/-- The escaped form of one character inside quotes delimited by `delim`. -/
def escapeChar (delim : Char) (c : Char) : String :=
  if c = '\x00' then "\\0"
  else if c = '\t' then "\\t"
  else if c = '\n' then "\\n"
  else if c = '\r' then "\\r"
  else if c = '\\' then "\\\\"
  else if c = delim then "\\" ++ c.toString
  else if needsCodeEscape c then "\\u\x7b" ++ hexDigits c.toNat ++ "\x7d"
  else c.toString

/-- A character between apostrophes, escaped. -/
def quoteChar (c : Char) : String :=
  "'" ++ escapeChar '\'' c ++ "'"

/-- A string between double quotes, escaped character by character. -/
def quoteString (s : String) : String :=
  "\"" ++ String.join (s.toList.map (escapeChar '"')) ++ "\""

end StakeChain.Text
