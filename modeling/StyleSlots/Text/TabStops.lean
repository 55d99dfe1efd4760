import StyleSlots.Text.Basic

/-! # Tab stops

    - **Width**: how many columns a text takes up, with a tab stop at every
      eighth column.
    - **Carriage return**: one column wide itself, and the tab stops are
      counted afresh behind it.

    A marker under a line of source stands in the right place only if it
    is indented by the width of what stands before it. -/

namespace StyleSlots

namespace Text

/-- The distance between tab stops. -/
def tabStop : Nat := 8

/-- The width of a text that starts `column` columns behind the point from
    which the tab stops are counted. -/
def widthFrom (column : Nat) : Text → Nat
  | [] => 0
  | c :: rest =>
    if c = '\t' then
      let step := tabStop - column % tabStop
      step + widthFrom (column + step) rest
    else if c = '\n' || c = '\r' then 1 + widthFrom 0 rest
    else 1 + widthFrom (column + 1) rest

/-- The width of a text that starts at a tab stop. -/
def width (t : Text) : Nat := widthFrom 0 t

end Text

end StyleSlots
