import StyleSlots.AtomicRule

/-! # Slots

    A declaration competes for its slot: the labels of the blocks around it,
    the normal selector and the property. Of the declarations that fill one
    slot, the last one wins.

    - **Placement**: a declaration, one of the selectors around it and the
      heads of the blocks around it. One atomic rule is made of each
      placement, and its class name starts with the hash of its slot. -/

namespace StyleSlots

/-- What a declaration competes for. -/
structure Slot where
  labels   : List Text
  selector : Text
  prop     : Text
  deriving DecidableEq, Repr

/-- The hash of a slot. -/
def Slot.hash (scheme : Scheme) (s : Slot) : Text :=
  ClassName.groupHash scheme s.labels s.selector s.prop

/-- A declaration in its place in a tree. -/
structure Placement where
  context     : List AtRule
  /-- The selector as authored; it is empty where there is no rule around. -/
  selector    : Text
  /-- Whether there is a rule around. -/
  inRule      : Bool
  declaration : Declaration
  deriving DecidableEq, Repr

namespace Placement

/-- The slot that a placement fills. -/
def slot (p : Placement) : Slot where
  labels   := p.context.map AtRule.label
  selector := Selector.normalize p.selector
  prop     := p.declaration.prop

/-- The atomic rule of a placement. -/
def rule (scheme : Scheme) (p : Placement) : AtomicRule :=
  .ofDeclaration scheme p.context p.selector p.declaration

/-- The class name of a placement. -/
def name (scheme : Scheme) (p : Placement) : Text := (p.rule scheme).className

/-- The key that a merge has to find in the name of a placement. -/
def key (scheme : Scheme) (p : Placement) : Text := scheme.sentinel ++ p.slot.hash scheme

theorem name_eq (scheme : Scheme) (p : Placement) :
    p.name scheme = p.key scheme ++
      ClassName.declarationHash scheme p.declaration.value p.declaration.important := rfl

end Placement

end StyleSlots
