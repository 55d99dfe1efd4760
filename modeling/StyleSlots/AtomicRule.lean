import StyleSlots.ClassName
import StyleSlots.Node.Printer

/-! # Atomic rules

    An atomic rule is one declaration for one class, inside the heads of
    the at-rule blocks that surrounded it.

    - **Class**: the class name is made from the blocks, the normal
      selector and the declaration.
    - **Selector**: the normal selector with the class in place of the
      self-reference, so that the rule styles only elements of the class. -/

namespace StyleSlots

/-- One declaration, scoped to one generated class. -/
structure AtomicRule where
  className   : Text
  /-- The heads of the blocks around the rule, outermost first. -/
  context     : List AtRule
  /-- The selector, with the class in place of the self-reference. -/
  selector    : Text
  declaration : Declaration
  deriving DecidableEq, Repr

namespace AtomicRule

/-- The rule of a declaration for one authored selector. -/
def ofDeclaration (scheme : Scheme) (context : List AtRule) (selector : Text) (d : Declaration) :
    AtomicRule :=
  let normal := Selector.normalize selector
  let className := ClassName.encode scheme (context.map AtRule.label) normal d
  { className, context, selector := Selector.scopeTo className normal, declaration := d }

/-- The labels of the blocks around a rule, outermost first. -/
def contextLabels (r : AtomicRule) : List Text := r.context.map AtRule.label

/-- The text of a rule inside its blocks. -/
def css (r : AtomicRule) : Text :=
  r.context.foldr (fun head inner => Node.braces head.prelude inner)
    (Node.braces r.selector r.declaration.css)

end AtomicRule

end StyleSlots
