import StyleSlots.Compiler
import StyleSlots.Proofs.Slot

/-! # The placements of a tree

    A trace mixes rules with everything else that happens on the way. What
    rules there are, and in which order, is told by the placements alone:

    - **Fan-out**: a declaration is placed once for each selector of the
      rule around it, and once where there is none.
    - **Order**: depth first, from left to right.

    The walk carries the heads of the blocks around along, as the one of the
    compiler does. It says nothing about refusals: a declaration behind a
    nested rule is placed all the same. -/

namespace StyleSlots

namespace Placement

/-! ## Placements -/

/-- The placement of a declaration that is in no rule. -/
def direct (context : List AtRule) (d : Declaration) : Placement := ⟨context, [], false, d⟩

/-- The placements of a declaration inside a rule. -/
def fanOut (context : List AtRule) (selectors : List Text) (d : Declaration) : List Placement :=
  (if selectors.isEmpty then [[]] else selectors).map fun selector => ⟨context, selector, true, d⟩

/-- The placements of the declarations directly inside a rule. -/
def ofRule (context : List AtRule) (selectors : List Text) (nodes : List Node) :
    List Placement :=
  (Node.declarations nodes).flatMap (fanOut context selectors)

mutual

/-- The placements of a node inside compiled blocks. -/
def ofNode (context : List AtRule) : Node → List Placement
  | .declaration d => [direct context d]
  | .rule selectors nodes _ => ofRule context selectors nodes
  | .block head nodes _ => ofNodes (context ++ [head]) nodes
  | _ => []

/-- The placements of nodes inside compiled blocks. -/
def ofNodes (context : List AtRule) : List Node → List Placement
  | [] => []
  | node :: more => ofNode context node ++ ofNodes context more

end

/-- Whether a top-level node is compiled: a block only if its name is
    supported. -/
def entered (scheme : Scheme) : Node → Bool
  | .block head _ _ => scheme.supported.contains head.name
  | _ => true

/-- The placements of a tree. -/
def ofTree (scheme : Scheme) (nodes : List Node) : List Placement :=
  ofNodes [] (nodes.filter (entered scheme))

end Placement

/-! ## Compilations -/

namespace Compiler

/-- The placements of a tree that is compiled. -/
def placements (c : Compiler) (nodes : List Node) : List Placement :=
  Placement.ofTree c.scheme (c.prepare nodes)

/-- Whether a compilation is refused, and why, is that of its trace. -/
theorem compile_rules_eq_ok_iff {c : Compiler} {nodes : List Node} {rules : List AtomicRule} :
    (c.compile nodes).2.rules = .ok rules ↔
      (c.trace nodes).refusal = none ∧ (c.trace nodes).rules = rules := by
  unfold compile
  simp only
  split <;> simp [*]

/-- The names that a compilation adds are those of its rules. -/
theorem names_of_ok {c : Compiler} {nodes : List Node} {rules : List AtomicRule}
    (h : (c.compile nodes).2.rules = .ok rules) :
    (c.compile nodes).1.names = c.names ++ rules.map AtomicRule.className := by
  obtain ⟨_, hrules⟩ := compile_rules_eq_ok_iff.1 h
  rw [← hrules]
  rfl

end Compiler

end StyleSlots
