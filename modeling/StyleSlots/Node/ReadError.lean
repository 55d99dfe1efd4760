import StyleSlots.Node.Basic
import StyleSlots.Text.TabStops

/-! # Reading errors

    - **Structure**: a character with which no lexeme starts, a brace
      without a partner.
    - **Words**: a run that should be a declaration and has no property or
      no colon.

    Each error knows where it was found; the wording is made from it here
    and nowhere else. -/

namespace StyleSlots

/-- A reason, with the position it refers to, if there is one, in front. -/
def located (source : Option Position) (reason : Text) : Text :=
  match source with
  | some p => p.label ++ ": ".toList ++ reason
  | none => reason

/-- Why a text is not a style sheet. -/
inductive ReadError where
  /-- No lexeme starts here; `before` and `after` are the source around. -/
  | noLexeme (p : Position) (before after : Text)
  /-- An opening brace without a head. -/
  | headless (p : Position)
  /-- A closing brace outside of any rule or block. -/
  | unopened (p : Position)
  /-- The text ends inside a rule or block; `p` is the last token's position. -/
  | unclosed (p : Position)
  /-- A run that is no declaration. -/
  | unknownWord (p : Position) (word : Text)
  /-- A reason that a caller has stated. -/
  | stated (reason : Text) (source : Option Position)
  deriving DecidableEq, Repr

namespace ReadError

/-! ## Context -/

/-- How much of the source is shown on either side. -/
def contextSpan : Nat := 40

/-- The part of a text behind its last line feed. -/
def lastLine (t : Text) : Text := (t.reverse.takeWhile (· ≠ '\n')).reverse

/-- The part of a text before its first line feed. -/
def firstLine (t : Text) : Text := t.takeWhile (· ≠ '\n')

/-- The error at the start of `rest`, which stands behind `before`. -/
def noLexemeAt (p : Position) (before rest : Text) : ReadError :=
  noLexeme p (lastLine (before.drop (before.length - contextSpan)))
    (firstLine (rest.take contextSpan))

/-- The line of source around an error, with a mark below its character. -/
def context (before after : Text) : Text :=
  before ++ after ++ '\n' :: List.replicate before.width ' ' ++ "^\n".toList

/-! ## Wording -/

/-- The position of an error. -/
def source : ReadError → Option Position
  | noLexeme p _ _ => some p
  | headless p => some p
  | unopened p => some p
  | unclosed p => some p
  | unknownWord p _ => some p
  | stated _ source => source

/-- The reason for a token that cannot stand at `p`. -/
def unexpected (p : Position) (token : Text) : Text :=
  "Unexpected token Token(".toList ++ token ++ ") at line ".toList ++ signedNumeral p.line ++
    ", column ".toList ++ signedNumeral p.column ++ ".\n".toList

/-- The reason of an error. -/
def reason : ReadError → Text
  | noLexeme p before after =>
    "No terminal matches '".toList ++ after.take 1 ++
      "' in the current parser context, at line ".toList ++ signedNumeral p.line ++
      " col ".toList ++ signedNumeral p.column ++ "\n\n".toList ++ context before after
  | headless p => unexpected p "'LBRACE', '\x7b'".toList
  | unopened p => unexpected p "'RBRACE', '\x7d'".toList
  | unclosed p => unexpected p "'$END', ''".toList
  | unknownWord _ word => "Unknown word ".toList ++ word.quoted
  | stated reason _ => reason

/-- The full message of an error. -/
def message (e : ReadError) : Text := located e.source e.reason

end ReadError

end StyleSlots
