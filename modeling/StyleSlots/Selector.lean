import StyleSlots.Text.Basic

/-! # Selectors

    A generated rule replaces the element that an author writes as `&` by
    its class. Selectors are brought into a form that says where that
    element stands.

    - **Normal form**: trimmed, and with at least one self-reference.
    - **Lists**: selectors between commas, where a comma inside quotes,
      parentheses or brackets belongs to a selector. -/

namespace StyleSlots

namespace Selector

/-! ## Self-reference -/

/-- The character that stands for the element itself. -/
def selfReference : Char := '&'

/-- The normal form of a selector. One that only starts with a colon is a
    state of the element itself, any other one a descendant of it, and an
    empty one the element. -/
def normalize (t : Text) : Text :=
  let trimmed := t.trim
  if trimmed.isEmpty then [selfReference]
  else if selfReference ∈ trimmed then trimmed
  else if trimmed.head? = some ':' then selfReference :: trimmed
  else selfReference :: ' ' :: trimmed

/-- Every self-reference replaced by a class selector. -/
def scopeTo (className : Text) (selector : Text) : Text :=
  selector.flatMap fun c => if c = selfReference then '.' :: className else [c]

/-! ## Lists -/

/-- Where a character of a selector list stands: in a quote, and inside how
    many brackets. Parentheses and square brackets count alike, and one
    that closes nothing has no effect. -/
structure Nesting where
  quote : Option Char
  depth : Nat
  deriving DecidableEq, Repr

namespace Nesting

/-- Outside of quotes and brackets. -/
def outer : Nesting := ⟨none, 0⟩

/-- Where the character behind `c` stands. -/
def after (n : Nesting) (c : Char) : Nesting :=
  match n.quote with
  | some q => if c = q then { n with quote := none } else n
  | none =>
    if c = '\'' ∨ c = '"' then { n with quote := some c }
    else if c = '(' ∨ c = '[' then { n with depth := n.depth + 1 }
    else if c = ')' ∨ c = ']' then { n with depth := n.depth - 1 }
    else n

end Nesting

/-- The stretches between the commas that separate selectors, for a text
    that starts at `n`. -/
def stretches (n : Nesting) : Text → List Text
  | [] => [[]]
  | c :: rest =>
    if c = ',' ∧ n = .outer then [] :: stretches n rest
    else
      -- `c` belongs to the stretch that the rest starts with
      match stretches (n.after c) rest with
      | [] => [[c]]
      | stretch :: more => (c :: stretch) :: more

/-- The selectors of a list, trimmed. Empty ones are left out. -/
def split (t : Text) : List Text :=
  ((stretches .outer t).map Text.trim).filter (! ·.isEmpty)

/-- A list of selectors as one text. -/
def joinList (selectors : List Text) : Text := Text.join ", ".toList selectors

end Selector

end StyleSlots
