import StyleSlots.Trace.Refusal
import StyleSlots.AtomicRule

/-! # Traces

    Compiling a tree is described by what happens on the way through it.

    - **Events**: a rule is made, a node is carried along, a block or node
      is dropped, in the order of the tree.
    - **Refusal**: a trace may end early. The events before it have
      happened all the same.

    Rules, class names, carried nodes and log entries are all read off one
    trace, so they cannot disagree about what came first. -/

namespace StyleSlots

/-! ## Events -/

/-- What happens to a part of a tree. -/
inductive Event where
  | made (rule : AtomicRule)
  /-- A top-level node goes into the style sheet as it is. -/
  | carried (node : Node)
  /-- A block inside a rule with these selectors is left out. -/
  | droppedBlock (head : AtRule) (selectors : List Text)
  /-- A top-level node is left out. -/
  | droppedNode (node : Node)
  deriving Repr

namespace Event

/-- The rule that an event makes. -/
def rule? : Event → Option AtomicRule
  | made rule => some rule
  | _ => none

/-- The node that an event carries along. -/
def carried? : Event → Option Node
  | carried node => some node
  | _ => none

end Event

/-! ## Traces -/

/-- Events up to the end of a tree or to a refusal. -/
structure Trace where
  events  : List Event
  refusal : Option Refusal
  deriving Repr

namespace Trace

/-- Nothing happens. -/
def empty : Trace := ⟨[], none⟩

/-- The given events happen. -/
def ofEvents (events : List Event) : Trace := ⟨events, none⟩

/-- A refusal before anything happens. -/
def refuse (e : Refusal) : Trace := ⟨[], some e⟩

/-- One trace after the other; a refusal leaves nothing after it. -/
def andThen (first second : Trace) : Trace :=
  match first.refusal with
  | some e => ⟨first.events, some e⟩
  | none => ⟨first.events ++ second.events, second.refusal⟩

/-- Traces one after the other. -/
def concat (traces : List Trace) : Trace := traces.foldr andThen empty

/-- The rules made, in order. -/
def rules (t : Trace) : List AtomicRule := t.events.filterMap Event.rule?

/-- The names of the classes made, in order. -/
def names (t : Trace) : List Text := t.rules.map AtomicRule.className

/-- The nodes carried along, in order. -/
def carried (t : Trace) : List Node := t.events.filterMap Event.carried?

end Trace

end StyleSlots
