import StyleSlots.Text.Basic

/-! # Shorthand properties

    - **Shorthand**: a property that sets other properties as well.
    - **Superseded**: the properties that a shorthand sets, shorthands
      among them. `border-color` supersedes `border-top-color` as well as
      `border-block-color`.
    - **Everything**: `all` supersedes every property but itself.

    Between rules of equal specificity the later one wins. A shorthand that
    stands behind a property it supersedes would undo it. -/

namespace StyleSlots

namespace Cascade

/-- What a shorthand supersedes. -/
inductive Superseded where
  | everything
  | listed (props : List Text)
  deriving DecidableEq, Repr

/-- The shorthand for every property. -/
def universal : Text := "all".toList

/-- The shorthands that supersede a fixed list of properties, by name. -/
def table : List (String × List String) :=
  [("animation", ["animation-delay", "animation-direction", "animation-duration",
     "animation-fill-mode", "animation-iteration-count", "animation-name", "animation-play-state",
     "animation-timeline", "animation-timing-function"]),
   ("animation-range", ["animation-range-start", "animation-range-end"]),
   ("background", ["background-attachment", "background-clip", "background-color",
     "background-image", "background-origin", "background-position", "background-repeat",
     "background-size"]),
   ("border", ["border-block", "border-block-end", "border-block-end-color",
     "border-block-end-style", "border-block-end-width", "border-block-start",
     "border-block-start-color", "border-block-start-style", "border-block-start-width",
     "border-bottom", "border-bottom-color", "border-bottom-style", "border-bottom-width",
     "border-inline", "border-inline-end", "border-inline-end-color", "border-inline-end-style",
     "border-inline-end-width", "border-inline-start", "border-inline-start-color",
     "border-inline-start-style", "border-inline-start-width", "border-left", "border-left-color",
     "border-left-style", "border-left-width", "border-right", "border-right-color",
     "border-right-style", "border-right-width", "border-top", "border-top-color",
     "border-top-style", "border-top-width"]),
   ("border-block", ["border-block-start", "border-block-start-color", "border-block-start-style",
     "border-block-start-width", "border-block-end", "border-block-end-color",
     "border-block-end-style", "border-block-end-width", "border-top-color", "border-top-style",
     "border-top-width", "border-bottom-color", "border-bottom-style", "border-bottom-width"]),
   ("border-block-end", ["border-block-end-color", "border-block-end-style",
     "border-block-end-width", "border-top-color", "border-top-style", "border-top-width",
     "border-bottom-color", "border-bottom-style", "border-bottom-width"]),
   ("border-block-start", ["border-block-start-color", "border-block-start-style",
     "border-block-start-width", "border-top-color", "border-top-style", "border-top-width",
     "border-bottom-color", "border-bottom-style", "border-bottom-width"]),
   ("border-bottom", ["border-bottom-color", "border-bottom-style", "border-bottom-width",
     "border-block-start-color", "border-block-start-style", "border-block-start-width",
     "border-block-end-color", "border-block-end-style", "border-block-end-width"]),
   ("border-color", ["border-block-color", "border-block-start-color", "border-block-end-color",
     "border-inline-color", "border-inline-start-color", "border-inline-end-color",
     "border-bottom-color", "border-left-color", "border-right-color", "border-top-color"]),
   ("border-image", ["border-image-outset", "border-image-repeat", "border-image-slice",
     "border-image-source", "border-image-width"]),
   ("border-inline", ["border-inline-start", "border-inline-start-color",
     "border-inline-start-style", "border-inline-start-width", "border-inline-end",
     "border-inline-end-color", "border-inline-end-style", "border-inline-end-width",
     "border-left-color", "border-left-style", "border-left-width", "border-right-color",
     "border-right-style", "border-right-width"]),
   ("border-inline-end", ["border-inline-end-color", "border-inline-end-style",
     "border-inline-end-width", "border-left-color", "border-left-style", "border-left-width",
     "border-right-color", "border-right-style", "border-right-width"]),
   ("border-inline-start", ["border-inline-start-color", "border-inline-start-style",
     "border-inline-start-width", "border-left-color", "border-left-style", "border-left-width",
     "border-right-color", "border-right-style", "border-right-width"]),
   ("border-left", ["border-left-color", "border-left-style", "border-left-width",
     "border-inline-start-color", "border-inline-start-style", "border-inline-start-width",
     "border-inline-end-color", "border-inline-end-style", "border-inline-end-width"]),
   ("border-radius", ["border-top-left-radius", "border-top-right-radius",
     "border-bottom-right-radius", "border-bottom-left-radius", "border-start-start-radius",
     "border-start-end-radius", "border-end-end-radius", "border-end-start-radius"]),
   ("border-right", ["border-right-color", "border-right-style", "border-right-width",
     "border-inline-start-color", "border-inline-start-style", "border-inline-start-width",
     "border-inline-end-color", "border-inline-end-style", "border-inline-end-width"]),
   ("border-style", ["border-block-style", "border-block-start-style", "border-block-end-style",
     "border-inline-style", "border-inline-start-style", "border-inline-end-style",
     "border-bottom-style", "border-left-style", "border-right-style", "border-top-style"]),
   ("border-top", ["border-top-color", "border-top-style", "border-top-width",
     "border-block-start-color", "border-block-start-style", "border-block-start-width",
     "border-block-end-color", "border-block-end-style", "border-block-end-width"]),
   ("border-width", ["border-block-width", "border-block-start-width", "border-block-end-width",
     "border-inline-width", "border-inline-start-width", "border-inline-end-width",
     "border-bottom-width", "border-left-width", "border-right-width", "border-top-width"]),
   ("column-rule", ["column-rule-color", "column-rule-style", "column-rule-width"]),
   ("columns", ["column-count", "column-width"]),
   ("contain-intrinsic-size", ["contain-intrinsic-width", "contain-intrinsic-block-size",
     "contain-intrinsic-height", "contain-intrinsic-inline-size"]),
   ("container", ["container-name", "container-type"]),
   ("flex", ["flex-basis", "flex-grow", "flex-shrink"]),
   ("flex-flow", ["flex-direction", "flex-wrap"]),
   ("font", ["font-style", "font-variant", "font-variant-alternates", "font-variant-caps",
     "font-variant-east-asian", "font-variant-emoji", "font-variant-ligatures",
     "font-variant-numeric", "font-variant-position", "font-weight", "font-stretch", "font-size",
     "line-height", "font-family"]),
   ("font-synthesis", ["font-synthesis-style", "font-synthesis-weight",
     "font-synthesis-small-caps", "font-synthesis-position"]),
   ("font-variant", ["font-variant-alternates", "font-variant-caps", "font-variant-east-asian",
     "font-variant-emoji", "font-variant-ligatures", "font-variant-numeric",
     "font-variant-position"]),
   ("gap", ["row-gap", "column-gap"]),
   ("grid", ["grid-template", "grid-template-rows", "grid-template-columns",
     "grid-template-areas", "grid-auto-rows", "grid-auto-columns", "grid-auto-flow"]),
   ("grid-area", ["grid-column", "grid-column-end", "grid-column-start", "grid-row",
     "grid-row-end", "grid-row-start"]),
   ("grid-column", ["grid-column-end", "grid-column-start"]),
   ("grid-row", ["grid-row-end", "grid-row-start"]),
   ("grid-template", ["grid-template-rows", "grid-template-columns", "grid-template-areas"]),
   ("inset", ["top", "right", "bottom", "left", "inset-block", "inset-block-start",
     "inset-block-end", "inset-inline", "inset-inline-start", "inset-inline-end"]),
   ("inset-block", ["inset-block-start", "inset-block-end", "top", "bottom"]),
   ("inset-inline", ["inset-inline-start", "inset-inline-end", "left", "right"]),
   ("list-style", ["list-style-image", "list-style-position", "list-style-type"]),
   ("margin", ["margin-block", "margin-block-end", "margin-block-start", "margin-bottom",
     "margin-inline", "margin-inline-end", "margin-inline-start", "margin-left", "margin-right",
     "margin-top"]),
   ("margin-block", ["margin-block-start", "margin-block-end", "margin-top", "margin-bottom"]),
   ("margin-inline", ["margin-inline-start", "margin-inline-end", "margin-left", "margin-right"]),
   ("mask", ["mask-clip", "mask-composite", "mask-image", "mask-mode", "mask-origin",
     "mask-position", "mask-repeat", "mask-size"]),
   ("mask-border", ["mask-border-mode", "mask-border-outset", "mask-border-repeat",
     "mask-border-slice", "mask-border-source", "mask-border-width"]),
   ("offset", ["offset-anchor", "offset-distance", "offset-path", "offset-position",
     "offset-rotate"]),
   ("outline", ["outline-color", "outline-style", "outline-width"]),
   ("overflow", ["overflow-x", "overflow-y", "overflow-block", "overflow-inline"]),
   ("overscroll-behavior", ["overscroll-behavior-x", "overscroll-behavior-y",
     "overscroll-behavior-inline", "overscroll-behavior-block"]),
   ("padding", ["padding-block", "padding-block-end", "padding-block-start", "padding-bottom",
     "padding-inline", "padding-inline-end", "padding-inline-start", "padding-left",
     "padding-right", "padding-top"]),
   ("padding-block", ["padding-block-start", "padding-block-end", "padding-top",
     "padding-bottom"]),
   ("padding-inline", ["padding-inline-start", "padding-inline-end", "padding-left",
     "padding-right"]),
   ("place-content", ["align-content", "justify-content"]),
   ("place-items", ["align-items", "justify-items"]),
   ("place-self", ["align-self", "justify-self"]),
   ("position-try", ["position-try-order", "position-try-fallbacks"]),
   ("scroll-margin", ["scroll-margin-block", "scroll-margin-block-end",
     "scroll-margin-block-start", "scroll-margin-bottom", "scroll-margin-inline",
     "scroll-margin-inline-end", "scroll-margin-inline-start", "scroll-margin-left",
     "scroll-margin-right", "scroll-margin-top"]),
   ("scroll-margin-block", ["scroll-margin-block-start", "scroll-margin-block-end",
     "scroll-margin-top", "scroll-margin-bottom"]),
   ("scroll-margin-inline", ["scroll-margin-inline-start", "scroll-margin-inline-end",
     "scroll-margin-left", "scroll-margin-right"]),
   ("scroll-padding", ["scroll-padding-block", "scroll-padding-block-end",
     "scroll-padding-block-start", "scroll-padding-bottom", "scroll-padding-inline",
     "scroll-padding-inline-end", "scroll-padding-inline-start", "scroll-padding-left",
     "scroll-padding-right", "scroll-padding-top"]),
   ("scroll-padding-block", ["scroll-padding-block-start", "scroll-padding-block-end",
     "scroll-padding-top", "scroll-padding-bottom"]),
   ("scroll-padding-inline", ["scroll-padding-inline-start", "scroll-padding-inline-end",
     "scroll-padding-left", "scroll-padding-right"]),
   ("scroll-timeline", ["scroll-timeline-name", "scroll-timeline-axis"]),
   ("text-decoration", ["text-decoration-color", "text-decoration-line", "text-decoration-style",
     "text-decoration-thickness"]),
   ("text-emphasis", ["text-emphasis-color", "text-emphasis-style"]),
   ("text-wrap", ["text-wrap-mode", "text-wrap-style"]),
   ("transition", ["transition-behavior", "transition-delay", "transition-duration",
     "transition-property", "transition-timing-function"]),
   ("view-timeline", ["view-timeline-name", "view-timeline-axis"])]

/-- The entries of the table as texts. -/
def entries : List (Text × List Text) :=
  table.map fun entry => (entry.1.toList, entry.2.map String.toList)

/-- The names of all shorthands. -/
def keys : List Text := universal :: entries.map Prod.fst

/-- What a property supersedes, if it is a shorthand. -/
def superseded? (prop : Text) : Option Superseded :=
  if prop = universal then some .everything
  else (entries.find? (·.1 = prop)).map fun entry => .listed entry.2

/-- Whether a property is a shorthand. -/
def isShorthand (prop : Text) : Bool := (superseded? prop).isSome

/-- Whether shorthand `a` has to stand before property `b`. -/
def supersedes (a b : Text) : Bool :=
  match superseded? a with
  | some .everything => a ≠ b
  | some (.listed props) => props.contains b
  | none => false

end Cascade

end StyleSlots
