import StyleSlots.AtomicRule
import StyleSlots.Ordered.Set

/-! # Style sheets

    - **Order**: first the nodes that are carried along as they are, then
      the atomic rules, in the order in which they were made.
    - **Once**: of equal texts only the first is written. A second copy
      changes nothing on a page, so a style sheet that grows by rules it
      already has stays as it is. -/

namespace StyleSlots

/-- The distinct texts of carried nodes and rules that are not empty. The
    nodes come first, which keeps statements such as `@import` at the top. -/
def renderings (carried : List Node) (rules : List AtomicRule) : OrderedSet Text :=
  .ofList ((carried.map Node.css ++ rules.map AtomicRule.css).filter (! ·.isEmpty))

/-- The style sheet of carried nodes and rules. -/
def styleSheet (separator : Text) (carried : List Node) (rules : List AtomicRule) : Text :=
  Text.join separator (renderings carried rules).toList

end StyleSlots
