import StyleSlots.Text.Quoted

/-! # Naming schemes

    - **Shape of a class name**: a sentinel, then a group hash, then a hash
      of the declaration, each of a fixed length.
    - **At-rules**: the names of the blocks whose contents are compiled.

    The first part is a contract between the compiler, which writes class
    names, and the merger, which takes them apart: both have to be given
    the same one. -/

namespace StyleSlots

/-! ## Sentinels -/

/-- An ASCII letter or an underscore. -/
def isNameStart (c : Char) : Bool := c.isAlpha || c = '_'

/-- One name character, which a final line break may follow. -/
def isSentinel : Text → Bool
  | [c] => isNameStart c
  | [c, '\n'] => isNameStart c
  | _ => false

/-! ## Schemes -/

/-- The shape of class names, and the at-rules that are compiled. -/
structure Scheme where
  /-- What every generated class name starts with. -/
  sentinel : Text
  /-- The length of the group hash. -/
  groupWidth : Nat
  /-- The length of the declaration hash. -/
  declarationWidth : Nat
  /-- The names of the at-rules whose blocks are compiled. -/
  supported : List Text
  sentinel_valid : isSentinel sentinel = true
  groupWidth_pos : 1 ≤ groupWidth
  declarationWidth_pos : 1 ≤ declarationWidth
  deriving DecidableEq, Repr

namespace Scheme

/-- The sentinel of the default scheme. -/
def defaultSentinel : Text := ['_']

/-- The width of either hash in the default scheme. -/
def defaultWidth : Nat := 4

/-- The at-rules that the default scheme compiles. -/
def defaultSupported : List Text :=
  ["media".toList, "supports".toList, "document".toList, "container".toList]

/-- The scheme used where none is given. -/
def default : Scheme where
  sentinel := defaultSentinel
  groupWidth := defaultWidth
  declarationWidth := defaultWidth
  supported := defaultSupported
  sentinel_valid := by decide
  groupWidth_pos := by decide
  declarationWidth_pos := by decide

/-- The number of characters that tell the group of a class name. -/
def groupLength (scheme : Scheme) : Nat := scheme.sentinel.length + scheme.groupWidth

/-- The number of characters of a class name. -/
def nameLength (scheme : Scheme) : Nat := scheme.groupLength + scheme.declarationWidth

/-! ## Building a scheme -/

/-- Why there is no scheme with the given parts. -/
inductive Fault where
  | sentinel (given : Text)
  | width
  deriving DecidableEq, Repr

/-- The wording of a fault. -/
def Fault.message : Fault → Text
  | sentinel given =>
    "sentinel must be a single CSS identifier character, got ".toList ++ given.quoted
  | width => "prefix_width and suffix_width must be >= 1".toList

/-- The scheme with the given parts. The sentinel is looked at first. -/
def ofParts (sentinel : Text) (groupWidth declarationWidth : Int) (supported : List Text) :
    Except Fault Scheme :=
  if hs : isSentinel sentinel = true then
    if hw : 1 ≤ groupWidth ∧ 1 ≤ declarationWidth then
      .ok
        { sentinel
          groupWidth := groupWidth.toNat
          declarationWidth := declarationWidth.toNat
          supported
          sentinel_valid := hs
          groupWidth_pos := by omega
          declarationWidth_pos := by omega }
    else .error .width
  else .error (.sentinel sentinel)

/-! ## Display -/

/-- The form in which a message shows a scheme, whose widths are shown
    already. -/
def displayParts (sentinel groupWidth declarationWidth : Text) (supported : List Text) : Text :=
  "AtomicConfig(sentinel=".toList ++ sentinel.quoted ++
    ", prefix_width=".toList ++ groupWidth ++
    ", suffix_width=".toList ++ declarationWidth ++
    ", supported_at_rules=".toList ++
    Text.parenthesised (supported.map Text.quoted) ++ [')']

/-- The form in which a message shows a scheme. -/
def display (scheme : Scheme) : Text :=
  displayParts scheme.sentinel (decimalNumeral scheme.groupWidth)
    (decimalNumeral scheme.declarationWidth) scheme.supported

end Scheme

end StyleSlots
