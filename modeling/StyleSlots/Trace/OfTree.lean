import StyleSlots.Trace.Basic

/-! # The trace of a tree

    - **Context**: the heads of the blocks around a node, outermost first.
      Every block that is entered adds its head.
    - **Rules**: the declarations directly inside a rule are made into
      atomic rules, one for each selector. A rule there is refused, and a
      block there is dropped.
    - **Top level**: the name of a top-level block decides whether it is
      entered or carried along. Inside an entered block every block is
      entered. -/

namespace StyleSlots

namespace Trace

/-- Makes the rules of a declaration: one for each selector around it, or a
    single one for the element itself where there is none. -/
def ofDeclaration (scheme : Scheme) (context : List AtRule) (selectors : List Text)
    (d : Declaration) : Trace :=
  let targets := if selectors.isEmpty then [[]] else selectors
  ofEvents (targets.map fun selector => .made (.ofDeclaration scheme context selector d))

/-- Walks the contents of a rule. -/
def ofRule (scheme : Scheme) (context : List AtRule) (selectors : List Text) :
    List Node → Trace
  | [] => empty
  | .rule inner _ source :: _ => refuse (.nestedRule (Selector.joinList inner) source)
  | .declaration d :: more =>
    (ofDeclaration scheme context selectors d).andThen (ofRule scheme context selectors more)
  | .block head _ _ :: more =>
    (ofEvents [.droppedBlock head selectors]).andThen (ofRule scheme context selectors more)
  | _ :: more => ofRule scheme context selectors more

mutual

/-- Walks a node inside compiled blocks. -/
def ofNode (scheme : Scheme) (context : List AtRule) : Node → Trace
  | .declaration d => ofDeclaration scheme context [] d
  | .rule selectors nodes _ => ofRule scheme context selectors nodes
  | .block head nodes _ => ofNodes scheme (context ++ [head]) nodes
  | _ => empty

/-- Walks nodes inside compiled blocks, first to last. -/
def ofNodes (scheme : Scheme) (context : List AtRule) : List Node → Trace
  | [] => empty
  | node :: more => (ofNode scheme context node).andThen (ofNodes scheme context more)

end

/-- Walks a top-level node. -/
def ofTopNode (scheme : Scheme) : Node → Trace
  | .block head nodes source =>
    if scheme.supported.contains head.name then ofNodes scheme [head] nodes
    else ofEvents [.carried (.block head nodes source)]
  | .comment _ _ => empty
  | .other kind text source =>
    if text.isEmpty then ofEvents [.droppedNode (.other kind text source)]
    else ofEvents [.carried (.other kind text source)]
  | .foreign value => ofEvents [.droppedNode (.foreign value)]
  | node => ofNode scheme [] node

/-- Walks a tree. -/
def ofTree (scheme : Scheme) (nodes : List Node) : Trace :=
  concat (nodes.map (ofTopNode scheme))

theorem ofTree_cons (scheme : Scheme) (node : Node) (more : List Node) :
    ofTree scheme (node :: more) = (ofTopNode scheme node).andThen (ofTree scheme more) := rfl

end Trace

end StyleSlots
