import StyleSlots.Cascade.Order
import StyleSlots.Ordered.Set
import StyleSlots.Trace.Log
import StyleSlots.Trace.OfTree

/-! # Compilers

    - **Compilation**: a tree, with its shorthands moved first if that is
      wanted, becomes a trace.
    - **Memory**: a compiler keeps the nodes carried along by its last
      compilation and the class names of all of them. Neither has any
      influence on a later compilation.

    A refused compilation yields no rules, but the names and nodes that
    came before the refusal are kept. -/

namespace StyleSlots

/-- A compiler between two compilations. -/
structure Compiler where
  scheme         : Scheme
  /-- Whether shorthands are moved before what they supersede. -/
  shorthandFirst : Bool
  /-- The nodes carried along by the last compilation. -/
  carried        : List Node := []
  /-- The names of all classes made so far. -/
  names          : List Text := []
  deriving Repr

/-- What one compilation yields. -/
structure Compilation where
  rules : Except Refusal (List AtomicRule)
  log   : List LogEntry
  deriving Repr

namespace Compiler

/-- The tree that is walked for the given one. -/
def prepare (c : Compiler) (nodes : List Node) : List Node :=
  if c.shorthandFirst then Cascade.order nodes else nodes

/-- What happens when a tree is compiled. -/
def trace (c : Compiler) (nodes : List Node) : Trace := .ofTree c.scheme (c.prepare nodes)

/-- Compiles a tree. -/
def compile (c : Compiler) (nodes : List Node) : Compiler × Compilation :=
  let t := c.trace nodes
  let rules : Except Refusal (List AtomicRule) :=
    match t.refusal with
    | some e => .error e
    | none => .ok t.rules
  ({ c with carried := t.carried, names := c.names ++ t.names }, ⟨rules, t.log nodes.length⟩)

/-- The distinct names of all classes made so far. -/
def distinctNames (c : Compiler) : List Text := (OrderedSet.ofList c.names).toList

end Compiler

end StyleSlots
