import StyleSlots.Node.Basic

/-! # Style text

    - **Declarations**: property, colon, value and importance.
    - **Bodies**: the nodes of a rule or block, without blanks between
      them. A semicolon is written only where the node before it ends
      neither in one nor in a brace.
    - **Left out**: comments and foreign data have no text. -/

namespace StyleSlots

/-- The text of a declaration. -/
def Declaration.css (d : Declaration) : Text :=
  d.prop ++ ':' :: d.value ++ if d.important then " !important".toList else []

namespace Node

/-- Whether a text needs no semicolon before whatever follows it. -/
def isClosed (t : Text) : Bool :=
  match t.getLast? with
  | some c => c = '}' || c = ';'
  | none => true

/-- Texts one after the other, with a semicolon behind each but the last
    that is not closed. -/
def abut : List Text → Text
  | [] => []
  | [t] => t
  | t :: more => t ++ (if isClosed t then [] else [';']) ++ abut more

/-- The texts of a body put together. Empty ones leave no trace. -/
def body (texts : List Text) : Text := abut (texts.filter (! ·.isEmpty))

/-- A head with a body between braces. -/
def braces (head inner : Text) : Text := head ++ '{' :: inner ++ ['}']

mutual

/-- The text of a node. -/
def css : Node → Text
  | declaration d => d.css
  | rule selectors nodes _ => braces (Selector.joinList selectors) (body (cssAll nodes))
  | block head nodes _ => braces head.prelude (body (cssAll nodes))
  | comment _ _ => []
  | other _ text _ => text
  | foreign _ => []

/-- The texts of the nodes of a list. -/
def cssAll : List Node → List Text
  | [] => []
  | node :: more => css node :: cssAll more

end

end Node

end StyleSlots
