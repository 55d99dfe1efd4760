import StyleSlots.Lexeme.Basic

/-! # Scanning

    - **Tokens**: the lexemes of a text, first to last, each with the
      position of its first character.
    - **Stuck**: a character with which no lexeme starts ends the scan.

    A lexeme does not depend on what stands before it, so a text can be
    scanned without a look at its structure. -/

namespace StyleSlots

namespace Position

/-- The position of the character behind `c`. Only a line feed starts a
    line. -/
def next (p : Position) (c : Char) : Position :=
  if c = '\n' then { p with line := p.line + 1, column := 1 }
  else { p with column := p.column + 1 }

/-- The position behind a text. -/
def behind (p : Position) (t : Text) : Position := t.foldl next p

end Position

/-- A lexeme with the position of its first character. -/
structure Token where
  lexeme : Lexeme
  start  : Position
  deriving DecidableEq, Repr

/-- The lexemes of a text. -/
structure Scan where
  tokens : List Token
  /-- Where no lexeme starts, with the text from there on. -/
  stuck  : Option (Position × Text)
  deriving DecidableEq, Repr

namespace Scan

/-- The lexemes of a text whose first character stands at `p`, up to the end
    or to a character with which no lexeme starts. -/
def ofText (p : Position) (t : Text) : Scan :=
  match _h : Lexeme.next? t with
  | some (l, rest) =>
    let more := Scan.ofText (p.behind l.written) rest
    ⟨⟨l, p⟩ :: more.tokens, more.stuck⟩
  | none => ⟨[], if t.isEmpty then none else some (p, t)⟩
termination_by t.length
decreasing_by exact Lexeme.length_lt_of_next? _h

end Scan

end StyleSlots
