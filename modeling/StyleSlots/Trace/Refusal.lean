import StyleSlots.Node.ReadError

/-! # Refusals

    - **Nested rule**: a rule directly inside another one. Its selector is
      relative to the outer rule, so a class made from it alone would
      compete for the wrong slot.
    - **Wording**: a message tells where the rule stands, or else which
      selector it has. -/

namespace StyleSlots

/-- Why a tree is not compiled. -/
inductive Refusal where
  | nestedRule (selector : Text) (source : Option Position)
  /-- A reason that a caller has stated. -/
  | stated (reason : Text) (source : Option Position)
  deriving DecidableEq, Repr

namespace Refusal

/-- The position of what is refused. -/
def source : Refusal → Option Position
  | nestedRule _ source => source
  | stated _ source => source

/-- The reason of a refusal. -/
def reason : Refusal → Text
  | nestedRule selector none =>
    "Nested rules are not allowed (nested selector ".toList ++ selector.quoted ++ ").".toList
  | nestedRule _ (some _) => "Nested rules are not allowed.".toList
  | stated reason _ => reason

/-- The full message of a refusal. -/
def message (e : Refusal) : Text :=
  "atomicify-rules: ".toList ++ located e.source e.reason

end Refusal

end StyleSlots
