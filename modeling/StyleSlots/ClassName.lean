import StyleSlots.Scheme
import StyleSlots.Digest.ShortHash
import StyleSlots.Node.Basic

/-! # Class names

    A class name is a sentinel, a group hash and a declaration hash.

    - **Group**: the conditional context, the normal selector and the
      property. Two declarations with the same group compete for the same
      slot, so the group hash is all a merger has to compare.
    - **Declaration**: the value and its importance.
    - **Composite**: the text that is hashed. It keeps its components apart
      and spells every character that a class name may not hold. -/

namespace StyleSlots

namespace ClassName

/-! ## Composites -/

/-- A character that needs no escape. -/
def isSafe (c : Char) : Bool := c.isAlphanum || c = '-'

/-- A character spelt safely: an unsafe one, the underscore included, as
    its hexadecimal code point between underscores. -/
def escape (c : Char) : Text :=
  if isSafe c then [c] else '_' :: hexNumeral c.toNat ++ ['_']

/-- A text with its blanks collapsed and its characters spelt safely. -/
def safe (t : Text) : Text := t.collapse.flatMap escape

/-- What stands between components. Read from left to right, an underscore
    opens an escape of at least one digit, so two in a row do not. -/
def separator : Text := "__".toList

/-- The components that are not blank, spelt safely and separated. -/
def composite (parts : List Text) : Text :=
  Text.join separator ((parts.map safe).filter (! ·.isEmpty))

/-! ## Hashes -/

/-- The text whose hash identifies a slot. -/
def groupText (context : List Text) (selector prop : Text) : Text :=
  composite [context.flatten, selector, prop]

/-- The text whose hash identifies what a declaration puts into its slot. -/
def declarationText (value : Text) (important : Bool) : Text :=
  composite [value, if important then "important".toList else []]

/-- The hash of a slot. -/
def groupHash (scheme : Scheme) (context : List Text) (selector prop : Text) : Text :=
  shortHash (groupText context selector prop) scheme.groupWidth

/-- The hash of what a declaration puts into its slot. -/
def declarationHash (scheme : Scheme) (value : Text) (important : Bool) : Text :=
  shortHash (declarationText value important) scheme.declarationWidth

/-! ## Names -/

/-- The class name of a declaration under a normal selector. The context
    holds the labels of the blocks around it, outermost first. -/
def encode (scheme : Scheme) (context : List Text) (selector : Text) (d : Declaration) : Text :=
  scheme.sentinel ++ groupHash scheme context selector d.prop ++
    declarationHash scheme d.value d.important

/-! ## Reading a name -/

/-- Whether a class name has the shape of a generated one. Only its start
    and its least length are looked at. -/
def isAtomic (scheme : Scheme) (name : Text) : Bool :=
  scheme.sentinel.isPrefixOf name && scheme.groupLength ≤ name.length

/-- The sentinel and group hash of a generated class name. -/
def groupKey? (scheme : Scheme) (name : Text) : Option Text :=
  if isAtomic scheme name then some (name.take scheme.groupLength) else none

end ClassName

end StyleSlots
