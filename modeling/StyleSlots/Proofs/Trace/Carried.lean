import StyleSlots.Proofs.Cascade.InOrder
import StyleSlots.Proofs.SortedNames
import StyleSlots.Proofs.Trace.Outcome

/-! # What is carried along

    - **Which nodes**: the top-level blocks that are not supported and the
      top-level statements that have a text, in the order of the tree.
    - **In which form**: a tree is ordered before anyone asks which of its
      nodes are compiled. The scopes inside the nodes that are carried along
      are ordered with the others.
    - **Main statement**: `carried_eq_iff_inOrder`, these nodes stay as they
      are if shorthands are not moved or are in front already, and in no
      other case. -/

namespace StyleSlots

/-! ## Top-level nodes -/

theorem Node.isDeclaration_of_isCarried {scheme : Scheme} {node : Node}
    (h : node.isCarried scheme = true) : node.isDeclaration = false := by
  cases node <;> first | rfl | cases h

theorem Cascade.isCarried_orderNode (scheme : Scheme) (node : Node) :
    (orderNode node).isCarried scheme = node.isCarried scheme := by
  cases node <;> rfl

/-- To order a tree is to order the nodes that are carried along. -/
theorem Cascade.filter_isCarried_order (scheme : Scheme) (nodes : List Node) :
    (order nodes).filter (Node.isCarried scheme) =
      (nodes.filter (Node.isCarried scheme)).map orderNode := by
  have hothers : ∀ ms : List Node, ms.filter (Node.isCarried scheme) =
      (Node.others ms).filter (Node.isCarried scheme) := by
    intro ms
    rw [Node.others, List.filter_filter]
    apply List.filter_congr
    intro node _
    by_cases h : node.isCarried scheme = true
    · rw [h, Node.isDeclaration_of_isCarried h]
      rfl
    · rw [Bool.not_eq_true] at h
      rw [h, Bool.false_and]
  have hsame : Node.isCarried scheme ∘ orderNode = Node.isCarried scheme :=
    funext (isCarried_orderNode scheme)
  rw [hothers, others_order, List.filter_map, hsame, ← hothers]

/-- No place inside a node is a top-level one. -/
theorem Place.filter_carried_below (scheme : Scheme) (path : List Nat) (node : Node)
    (ps : List Place) : (ps.map (Place.below path [node])).filter (Place.carried scheme) = [] := by
  rw [List.filter_eq_nil_iff]
  intro p hp
  obtain ⟨q, -, rfl⟩ := List.mem_map.1 hp
  simp [carried, atTop]

/-- The places that are carried along are those of the top-level nodes that
    are. -/
theorem Place.map_node_filter_carried (scheme : Scheme) (nodes : List Node) :
    ((places nodes).filter (Place.carried scheme)).map Place.node =
      nodes.filter (Node.isCarried scheme) := by
  have hfrom : ∀ i, ((placesFrom i nodes).filter (Place.carried scheme)).map Place.node =
      nodes.filter (Node.isCarried scheme) := by
    induction nodes with
    | nil => exact fun _ => rfl
    | cons node nodes ih =>
      intro i
      have hhere : (here i node).carried scheme = node.isCarried scheme := rfl
      rw [placesFrom, placesAt_eq, List.cons_append, List.filter_cons, List.filter_cons, hhere,
        List.filter_append, filter_carried_below, List.nil_append]
      split
      · rw [List.map_cons, ih, node_here]
      · exact ih (i + 1)
  exact hfrom 0

namespace Compiler

variable {c : Compiler} {nodes : List Node}

/-! ## What becomes of them -/

/-- The form that a top-level node has on the walk, if it is no declaration. -/
def prepareNode (c : Compiler) (node : Node) : Node :=
  if c.shorthandFirst then Cascade.orderNode node else node

theorem filter_isCarried_prepare (c : Compiler) (nodes : List Node) :
    (c.prepare nodes).filter (Node.isCarried c.scheme) =
      (nodes.filter (Node.isCarried c.scheme)).map c.prepareNode := by
  by_cases hsort : c.shorthandFirst = true
  · have hnode : c.prepareNode = Cascade.orderNode := funext fun node => if_pos hsort
    rw [prepare, if_pos hsort, hnode, Cascade.filter_isCarried_order]
  · have hnode : c.prepareNode = id := funext fun node => if_neg hsort
    rw [prepare, if_neg hsort, hnode, List.map_id]

/-- A compilation carries along what is not compiled, in the form it has on
    the walk. -/
theorem carried_of_ok {rules : List AtomicRule} (h : (c.compile nodes).2.rules = .ok rules) :
    (c.compile nodes).1.carried = (nodes.filter (Node.isCarried c.scheme)).map c.prepareNode := by
  have hcarried : (c.compile nodes).1.carried = (c.trace nodes).carried := rfl
  rw [hcarried, (trace_of_ok h).2, Trace.carried_of_places, Place.map_node_filter_carried,
    filter_isCarried_prepare]

theorem prepareNode_eq_self_iff {node : Node} :
    c.prepareNode node = node ↔ c.shorthandFirst = false ∨ Cascade.InOrder node.inside := by
  cases hsort : c.shorthandFirst with
  | false => simp [prepareNode, hsort]
  | true => simp [prepareNode, hsort, Cascade.orderNode_eq_self_iff]

/-- A compilation carries along, in their order, the top-level nodes that are
    not compiled. With shorthands first declarations trade their slots inside
    these nodes too; so the nodes are left as they are if and only if
    shorthands are not moved, or none of the nodes has a shorthand behind
    something that it supersedes. -/
theorem carried_eq_iff_inOrder {rules : List AtomicRule}
    (h : (c.compile nodes).2.rules = .ok rules) :
    (c.compile nodes).1.carried = (nodes.filter (Node.isCarried c.scheme)).map c.prepareNode ∧
    (c.shorthandFirst = true →
      List.Forall₂ Cascade.InPlaceOf (nodes.filter (Node.isCarried c.scheme))
        (c.compile nodes).1.carried) ∧
    ((c.compile nodes).1.carried = nodes.filter (Node.isCarried c.scheme) ↔
      c.shorthandFirst = false ∨
        ∀ node ∈ nodes, node.isCarried c.scheme = true → Cascade.InOrder node.inside) := by
  have hcarried := carried_of_ok h
  refine ⟨hcarried, ?_, ?_⟩
  · intro hsort
    have hnode : c.prepareNode = Cascade.orderNode := funext fun node => if_pos hsort
    rw [hcarried, hnode, List.forall₂_map_right_iff, List.forall₂_same]
    exact fun node _ => Cascade.inPlaceOf_orderNode node
  · have heach : ∀ ms : List Node, ms.map c.prepareNode = ms ↔
        ∀ node ∈ ms, c.prepareNode node = node := by
      intro ms
      nth_rewrite 2 [← List.map_id ms]
      exact List.map_inj_left
    rw [hcarried, heach]
    constructor
    · intro hsame
      by_cases hsort : c.shorthandFirst = false
      · exact .inl hsort
      · refine .inr fun node hnode hkind => ?_
        have hself := hsame node (List.mem_filter.2 ⟨hnode, hkind⟩)
        exact (prepareNode_eq_self_iff.1 hself).resolve_left hsort
    · intro hcases node hnode
      obtain ⟨hmem, hkind⟩ := List.mem_filter.1 hnode
      exact prepareNode_eq_self_iff.2 (hcases.imp_right fun hinside => hinside node hmem hkind)

/-- A page that has a shorthand behind one of its constituents. -/
def pageBlock : Node :=
  .block ⟨"page".toList, []⟩
    [.declaration ⟨"margin-top".toList, "1px".toList, false, none⟩,
     .declaration ⟨"margin".toList, "0".toList, false, none⟩] none

/-- That page between things that are compiled, and a page in order. -/
def pagesTree : List Node :=
  [.declaration ⟨"gap".toList, "0".toList, false, none⟩, pageBlock,
   .block ⟨"media".toList, "print".toList⟩ [pageBlock] none,
   .block ⟨"page".toList, ":first".toList⟩
     [.declaration ⟨"margin".toList, "0".toList, false, none⟩,
      .declaration ⟨"margin-top".toList, "1px".toList, false, none⟩] none]

theorem not_inOrder_pageBlock : ¬ Cascade.InOrder pageBlock.inside := by
  rintro ⟨hfirst, -⟩
  have hbehind : Cascade.supersedes "margin".toList "margin-top".toList = false :=
    hfirst 0 1 _ _ Nat.zero_lt_one rfl rfl
  have hsupersedes : Cascade.supersedes "margin".toList "margin-top".toList = true := by decide
  rw [hsupersedes] at hbehind
  cases hbehind

theorem carried_eq_iff_inOrder_pages :
    ∃ rules, ((freshCompiler.sorting true).compile pagesTree).2.rules = .ok rules ∧
      ((freshCompiler.sorting true).compile pagesTree).1.carried.map Node.css =
        ["@page\x7bmargin:0;margin-top:1px\x7d".toList,
         "@page :first\x7bmargin:0;margin-top:1px\x7d".toList] ∧
      ((freshCompiler.sorting true).compile pagesTree).1.carried ≠
        pagesTree.filter (Node.isCarried .default) := by
  have hplain : (freshCompiler.compile pagesTree).2.rules =
      .ok (freshCompiler.trace pagesTree).rules := compile_rules_eq_ok_iff.2 ⟨rfl, rfl⟩
  have hok := compile_sorting_ok hplain true
  obtain ⟨hcarried, -, hiff⟩ := carried_eq_iff_inOrder hok
  refine ⟨_, hok, ?_, ?_⟩
  · rw [hcarried]
    decide +kernel
  · intro hsame
    rcases hiff.1 hsame with hfalse | hinside
    · cases hfalse
    · exact not_inOrder_pageBlock (hinside pageBlock (by simp [pagesTree]) rfl)

/-- What is carried along is not always what stands in the tree. -/
theorem carried_changed :
    ∃ rules, ((freshCompiler.sorting true).compile [pageBlock]).2.rules = .ok rules ∧
      ((freshCompiler.sorting true).compile [pageBlock]).1.carried ≠
        [pageBlock].filter (Node.isCarried .default) := by
  have hplain : (freshCompiler.compile [pageBlock]).2.rules =
      .ok (freshCompiler.trace [pageBlock]).rules := compile_rules_eq_ok_iff.2 ⟨rfl, rfl⟩
  refine ⟨_, compile_sorting_ok hplain true, ?_⟩
  intro hsame
  have hcss := congrArg (List.map Node.css) hsame
  revert hcss
  decide +kernel

end Compiler

end StyleSlots
