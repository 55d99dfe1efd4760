/-! # Texts

    Selectors, values, class names and whole style sheets are all texts,
    that is lists of code points.

    - **Blanks**: the characters that separate words and that trimming
      removes.
    - **Words**: the maximal runs of other characters, in order.
    - **Joining**: texts put together with a separator between neighbours.

    A list keeps every length, column and cut a count of code points, and
    makes "up to the first brace" the `takeWhile` of a predicate. -/

namespace StyleSlots

/-- A text as the list of its code points. -/
abbrev Text : Type := List Char

/-- Whether the code point of `c` lies in one of the closed ranges. -/
def inRanges (ranges : List (Nat × Nat)) (c : Char) : Bool :=
  ranges.any fun r => r.1 ≤ c.toNat && c.toNat ≤ r.2

/-! ## Blanks -/

/-- The code points that count as blank: the ASCII controls that space or
    break lines (with the four information separators), and the separators
    of Unicode. A zero-width space is not among them. -/
def blankRanges : List (Nat × Nat) :=
  [(0x09, 0x0D), (0x1C, 0x20), (0x85, 0x85), (0xA0, 0xA0), (0x1680, 0x1680),
   (0x2000, 0x200A), (0x2028, 0x2029), (0x202F, 0x202F), (0x205F, 0x205F),
   (0x3000, 0x3000)]

/-- A character that separates words. -/
def isBlank (c : Char) : Bool := inRanges blankRanges c

namespace Text

/-- The text without the blanks at its start. -/
def trimStart (t : Text) : Text := t.dropWhile isBlank

/-- The text without the blanks at its end. -/
def trimEnd (t : Text) : Text := (t.reverse.dropWhile isBlank).reverse

/-- The text without the blanks at either end. -/
def trim (t : Text) : Text := trimEnd (trimStart t)

/-! ## Words -/

/-- The stretches between the characters that satisfy `p`, empty stretches
    included: there is one more of them than there are such characters. -/
def fields (p : Char → Bool) : Text → List Text
  | [] => [[]]
  | c :: rest =>
    if p c then [] :: fields p rest
    else
      -- `c` belongs to the field that the rest starts with
      match fields p rest with
      | [] => [[c]]
      | field :: more => (c :: field) :: more

/-- The maximal runs of characters that are not blank. -/
def words (t : Text) : List Text := (fields isBlank t).filter (! ·.isEmpty)

/-! ## Joining -/

/-- The parts in order, with `separator` between neighbours. -/
def join (separator : Text) : List Text → Text
  | [] => []
  | [part] => part
  | part :: more => part ++ separator ++ join separator more

/-- The words of a text with one space between neighbours: trimmed, and
    every run of blanks collapsed. -/
def collapse (t : Text) : Text := join [' '] (words t)

end Text

end StyleSlots
