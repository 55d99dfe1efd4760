import StyleSlots.Proofs.Cascade.Nodes
import StyleSlots.Trace.OfTree

/-! # Ordered trees are refused alike

    A tree is refused for the first rule that stands directly inside another
    one. Ordering moves declarations only, so the first such rule stays the
    first. -/

namespace StyleSlots

namespace Trace

/-- A trace is refused as its first part is, or else as its second one. -/
theorem refusal_andThen (s t : Trace) : (s.andThen t).refusal = s.refusal.or t.refusal := by
  unfold andThen
  cases s.refusal <;> rfl

/-- Why a node may not stand inside a rule. -/
def nested? : Node → Option Refusal
  | .rule selectors _ source => some (.nestedRule (Selector.joinList selectors) source)
  | _ => none

theorem refusal_ofRule (scheme : Scheme) (context : List AtRule) (selectors : List Text)
    (nodes : List Node) :
    (ofRule scheme context selectors nodes).refusal = nodes.findSome? nested? := by
  induction nodes with
  | nil => rfl
  | cons node nodes ih =>
    cases node with
    | rule inner innerNodes source => rfl
    | declaration d =>
      rw [ofRule, refusal_andThen, ih]
      rfl
    | block head inner source =>
      rw [ofRule, refusal_andThen, ih]
      rfl
    | _ => exact ih

theorem refusal_ofNodes (scheme : Scheme) (context : List AtRule) (nodes : List Node) :
    (ofNodes scheme context nodes).refusal =
      nodes.findSome? fun node => (ofNode scheme context node).refusal := by
  induction nodes with
  | nil => rfl
  | cons node nodes ih =>
    rw [ofNodes, refusal_andThen, ih, List.findSome?_cons]
    cases (ofNode scheme context node).refusal <;> rfl

theorem refusal_ofTree (scheme : Scheme) (nodes : List Node) :
    (ofTree scheme nodes).refusal =
      nodes.findSome? fun node => (ofTopNode scheme node).refusal := by
  induction nodes with
  | nil => rfl
  | cons node nodes ih =>
    rw [ofTree_cons, refusal_andThen, ih, List.findSome?_cons]
    cases (ofTopNode scheme node).refusal <;> rfl

mutual

theorem refusal_orderNode (scheme : Scheme) (context : List AtRule) : ∀ node : Node,
    (ofNode scheme context (Cascade.orderNode node)).refusal =
      (ofNode scheme context node).refusal
  | .declaration _ => rfl
  | .rule selectors nodes source => by
    -- only the selectors and the position of a nested rule are reported
    show (ofRule scheme context selectors (Cascade.order nodes)).refusal =
      (ofRule scheme context selectors nodes).refusal
    rw [refusal_ofRule, refusal_ofRule]
    refine Cascade.findSome?_order (fun _ => rfl) ?_
    intro node _
    cases node <;> rfl
  | .block head nodes source => by
    show (ofNodes scheme (context ++ [head]) (Cascade.order nodes)).refusal =
      (ofNodes scheme (context ++ [head]) nodes).refusal
    rw [refusal_ofNodes, refusal_ofNodes]
    exact Cascade.findSome?_order (fun _ => rfl)
      (refusal_orderNode_of_mem scheme (context ++ [head]) nodes)
  | .comment .. => rfl
  | .other .. => rfl
  | .foreign _ => rfl

theorem refusal_orderNode_of_mem (scheme : Scheme) (context : List AtRule) : ∀ nodes : List Node,
    ∀ node ∈ nodes, (ofNode scheme context (Cascade.orderNode node)).refusal =
      (ofNode scheme context node).refusal
  | [], _, h => absurd h List.not_mem_nil
  | first :: more, node, h => by
    have hfirst := refusal_orderNode scheme context first
    have hmore := refusal_orderNode_of_mem scheme context more
    rcases List.mem_cons.1 h with rfl | h
    · exact hfirst
    · exact hmore node h

end

/-- An ordered tree is refused if the tree is, and for the same reason. -/
theorem refusal_ofTree_order (scheme : Scheme) (tree : List Node) :
    (ofTree scheme (Cascade.order tree)).refusal = (ofTree scheme tree).refusal := by
  rw [refusal_ofTree, refusal_ofTree]
  refine Cascade.findSome?_order (fun _ => rfl) ?_
  intro node _
  cases node with
  | block head nodes source =>
    have horder : Cascade.orderNode (.block head nodes source) =
        .block head (Cascade.order nodes) source := rfl
    rw [horder, ofTopNode, ofTopNode]
    -- ordering a block does not change whether it is compiled
    by_cases h : scheme.supported.contains head.name = true
    · rw [if_pos h, if_pos h]
      exact refusal_orderNode scheme [] (.block head nodes source)
    · rw [if_neg h, if_neg h]
      rfl
  | rule selectors nodes source => exact refusal_orderNode scheme [] (.rule selectors nodes source)
  | _ => rfl

end Trace

end StyleSlots
