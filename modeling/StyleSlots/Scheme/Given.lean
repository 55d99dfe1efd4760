import StyleSlots.Datum
import StyleSlots.Scheme

/-! # Schemes as they are given

    A caller gives widths as numbers, and not every number can be the
    length of a text.

    - **Acceptance**: the sentinel is looked at first, then the width of
      the group hash, then the other one. A width has to be a number and
      not below one.
    - **Scheme**: what is accepted makes a scheme if both widths are whole.
    - **Lengths and display**: in the numbers that were given. -/

namespace StyleSlots

/-- The parts of a scheme before they are looked at. -/
structure GivenScheme where
  sentinel         : Text := Scheme.defaultSentinel
  groupWidth       : Datum := .integer Scheme.defaultWidth
  declarationWidth : Datum := .integer Scheme.defaultWidth
  supported        : List Text := Scheme.defaultSupported
  deriving Repr

namespace GivenScheme

/-! ## Acceptance -/

/-- Why given parts make no scheme. -/
inductive Fault where
  | refused (fault : Scheme.Fault)
  /-- A width is no number. -/
  | notNumber
  /-- A width is accepted, but it cannot be a length. -/
  | notWhole
  deriving DecidableEq, Repr

/-- What is wrong with a width. -/
def widthFault? (width : Datum) : Option Fault :=
  match width.belowOne? with
  | none => some .notNumber
  | some true => some (.refused .width)
  | some false => none

/-- Why given parts are not accepted. -/
def fault? (given : GivenScheme) : Option Fault :=
  if isSentinel given.sentinel then
    (widthFault? given.groupWidth).or (widthFault? given.declarationWidth)
  else some (.refused (.sentinel given.sentinel))

/-- The scheme that given parts make. -/
def scheme (given : GivenScheme) : Except Fault Scheme :=
  match given.fault? with
  | some fault => .error fault
  | none =>
    match given.groupWidth.whole?, given.declarationWidth.whole? with
    | some groupWidth, some declarationWidth =>
      (Scheme.ofParts given.sentinel groupWidth declarationWidth given.supported).mapError .refused
    | _, _ => .error .notWhole

/-! ## Lengths -/

/-- The number of characters that tell the group of a class name. -/
def groupLength? (given : GivenScheme) : Option Datum :=
  (Datum.integer given.sentinel.length).add? given.groupWidth

/-- The number of characters of a class name. -/
def nameLength? (given : GivenScheme) : Option Datum := do
  (← given.groupLength?).add? given.declarationWidth

/-! ## Display -/

/-- Whether the parts are those of the default scheme. -/
def isDefault (given : GivenScheme) : Bool :=
  given.sentinel == Scheme.defaultSentinel && given.supported == Scheme.defaultSupported &&
    given.groupWidth.agrees (.integer Scheme.defaultWidth) &&
    given.declarationWidth.agrees (.integer Scheme.defaultWidth)

/-- The form in which a message shows given parts. -/
def display (given : GivenScheme) : Text :=
  Scheme.displayParts given.sentinel given.groupWidth.display given.declarationWidth.display
    given.supported

end GivenScheme

end StyleSlots
