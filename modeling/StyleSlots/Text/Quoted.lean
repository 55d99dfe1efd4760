import StyleSlots.Text.Numeral
import StyleSlots.Text.Printable

/-! # Quoted texts

    Messages show a piece of source between quotes, in a form that keeps
    every message on one line and leaves no character invisible.

    - **Quotes**: single ones, unless the text holds a single quote and no
      double one.
    - **Escapes**: the backslash, the quote in use, line feed, carriage
      return and tab by a backslash and one character; any other character
      that is not printable by its code point in hexadecimal.
    - **Sequences**: elements between brackets, with a comma and a space
      between neighbours. -/

namespace StyleSlots

namespace Text

/-! ## Quoting -/

/-- An escape by code point, with two, four or eight digits, whichever is
    the first to suffice. -/
def codePointEscape (n : Nat) : Text :=
  if n < 0x100 then "\\x".toList ++ padLeft '0' 2 (hexNumeral n)
  else if n < 0x10000 then "\\u".toList ++ padLeft '0' 4 (hexNumeral n)
  else "\\U".toList ++ padLeft '0' 8 (hexNumeral n)

/-- How one character is shown between quotes. -/
def quotedChar (quote c : Char) : Text :=
  if c = quote ∨ c = '\\' then ['\\', c]
  else if c = '\n' then "\\n".toList
  else if c = '\r' then "\\r".toList
  else if c = '\t' then "\\t".toList
  else if isPrintable c then [c]
  else codePointEscape c.toNat

/-- The quote around a text: the double one only where it saves an escape. -/
def quoteFor (t : Text) : Char :=
  if '\'' ∈ t ∧ '"' ∉ t then '"' else '\''

/-- A text between quotes. -/
def quoted (t : Text) : Text :=
  let quote := quoteFor t
  quote :: t.flatMap (quotedChar quote) ++ [quote]

/-! ## Sequences -/

/-- Elements between square brackets. -/
def bracketed (parts : List Text) : Text := '[' :: join ", ".toList parts ++ [']']

/-- Elements between parentheses. A single element keeps a comma behind it,
    which tells it from a parenthesised expression. -/
def parenthesised : List Text → Text
  | [part] => '(' :: part ++ ",)".toList
  | parts => '(' :: join ", ".toList parts ++ [')']

/-- Pairs of a key and a value between braces. -/
def braced (pairs : List (Text × Text)) : Text :=
  '{' :: join ", ".toList (pairs.map fun p => p.1 ++ ": ".toList ++ p.2) ++ ['}']

end Text

end StyleSlots
