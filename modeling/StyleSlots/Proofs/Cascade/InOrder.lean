import StyleSlots.Proofs.Cascade.ShorthandsFirst
import StyleSlots.Proofs.Node.Places

/-! # Trees that are in order already

    - **A scope**: a visit to entries that are in order finds nothing above
      any of them, so it writes them as they stand.
    - **A tree**: ordering keeps every node in its slot, so it can change
      nothing but scopes that are not in order.
    - **Main statement**: `orderNode_eq_self_iff`, a node is left as it is if
      and only if every scope inside it is in order. -/

namespace StyleSlots

namespace Cascade

/-! ## One scope -/

/-- Where no later entry supersedes an earlier one, all entries are written
    as they stand. -/
theorem visit_self {pending : List Entry}
    (h : pending.Pairwise fun a b => supersedes b.1.prop a.1.prop = false) :
    (visit pending pending).1 = (pending, []) := by
  induction pending with
  | nil => rw [visit]
  | cons e rest ih =>
    obtain ⟨hfirst, hrest⟩ := List.pairwise_cons.1 h
    have habove : above e rest = [] := by
      rw [above, List.filter_eq_nil_iff]
      intro other hother
      simp [hfirst other hother]
    have hnone : (visit rest []).1 = ([], rest) := by rw [visit]
    rw [visit, dif_pos (List.mem_cons_self ..)]
    dsimp only
    rw [List.erase_cons_head, habove, hnone, ih hrest]
    rfl

/-- The entries of a scope that is in order are written as they stand. -/
theorem written_of_pairwise {ds : List Declaration}
    (h : ds.Pairwise fun a b => supersedes b.prop a.prop = false) : written ds = ds.zipIdx := by
  have hentries : ds.zipIdx.Pairwise fun a b => supersedes b.1.prop a.1.prop = false := by
    rw [← List.zipIdx_map_fst 0 ds] at h
    exact List.pairwise_map.1 h
  rw [written, visit_self hentries]

/-- Ordering a scope leaves it as it is if and only if it is in order. -/
theorem orderScope_eq_self_iff {ds : List Declaration} :
    orderScope ds = ds ↔ ds.Pairwise fun a b => supersedes b.prop a.prop = false := by
  constructor
  · intro h
    rw [← h]
    exact pairwise_orderScope ds
  · intro h
    rw [← map_fst_written, written_of_pairwise h, List.zipIdx_map_fst]

theorem pairwise_of_shorthandsFirst {nodes : List Node} (h : ShorthandsFirst nodes) :
    (Node.declarations nodes).Pairwise fun a b => supersedes b.prop a.prop = false := by
  induction nodes with
  | nil => exact List.Pairwise.nil
  | cons node nodes ih =>
    have hrest : ShorthandsFirst nodes := fun i j a b hij ha hb =>
      h (i + 1) (j + 1) a b (Nat.succ_lt_succ hij) ha hb
    cases hnode : node.isDeclaration with
    | true =>
      obtain ⟨d, rfl⟩ := Node.eq_declaration hnode
      rw [Node.declarations, List.pairwise_cons]
      refine ⟨?_, ih hrest⟩
      intro b hb
      obtain ⟨j, hj⟩ := List.mem_iff_getElem?.1 (Node.mem_declarations.1 hb)
      exact h 0 (j + 1) d b (Nat.succ_pos j) rfl hj
    | false =>
      rw [Node.declarations_cons_other hnode]
      exact ih hrest

/-! ## Trees -/

/-- What is inside a node is ordered like a list of its own. -/
theorem inside_orderNode (node : Node) : (orderNode node).inside = order node.inside := by
  cases node <;> rfl

/-- The declarations of a list fill its slots. -/
theorem refill_declarations (nodes : List Node) :
    refill nodes (Node.declarations nodes) = nodes := by
  induction nodes with
  | nil => rfl
  | cons node nodes ih => cases node <;> simp only [Node.declarations, refill, ih]

/-- A list of nodes is left as it is if and only if its scope and its nodes
    are. -/
theorem order_eq_self_iff_each {nodes : List Node} :
    order nodes = nodes ↔
      orderScope (Node.declarations nodes) = Node.declarations nodes ∧
        ∀ node ∈ nodes, orderNode node = node := by
  constructor
  · intro h
    refine ⟨by rw [← declarations_order, h], ?_⟩
    intro node hnode
    cases hkind : node.isDeclaration with
    | true =>
      obtain ⟨d, rfl⟩ := Node.eq_declaration hkind
      rfl
    | false =>
      have hothers : (Node.others nodes).map orderNode = (Node.others nodes).map id := by
        rw [← others_order, h, List.map_id]
      exact List.map_inj_left.1 hothers node (Node.mem_others.2 ⟨hnode, hkind⟩)
  · rintro ⟨hscope, hnodes⟩
    have heach : orderEach nodes = nodes := by
      rw [orderEach_eq_map, List.map_congr_left hnodes, List.map_id']
    rw [order, heach, hscope, refill_declarations]

/-- A list of nodes in which every scope, however deep, is in order. -/
inductive InOrder : List Node → Prop where
  | intro {nodes : List Node} (first : ShorthandsFirst nodes)
      (inside : ∀ node ∈ nodes, InOrder node.inside) : InOrder nodes

theorem InOrder.nil : InOrder [] :=
  .intro (fun _ _ _ _ _ ha => by cases ha) (fun _ h => absurd h List.not_mem_nil)

theorem order_eq_self_iff_of_each {nodes : List Node}
    (h : ∀ node ∈ nodes, (orderNode node = node ↔ InOrder node.inside)) :
    order nodes = nodes ↔ InOrder nodes := by
  rw [order_eq_self_iff_each, orderScope_eq_self_iff]
  constructor
  · rintro ⟨hscope, hnodes⟩
    exact .intro (shorthandsFirst_of_pairwise hscope) fun node hnode =>
      (h node hnode).1 (hnodes node hnode)
  · rintro ⟨hfirst, hinside⟩
    exact ⟨pairwise_of_shorthandsFirst hfirst, fun node hnode =>
      (h node hnode).2 (hinside node hnode)⟩

/-- Ordering leaves a node as it is if and only if every scope inside it is
    in order. -/
theorem orderNode_eq_self_iff (node : Node) : orderNode node = node ↔ InOrder node.inside := by
  induction node using Node.inside_induction with
  | step node ih =>
    have hnodes := order_eq_self_iff_of_each ih
    cases node with
    | rule selectors nodes source =>
      show Node.rule selectors (order nodes) source = .rule selectors nodes source ↔ InOrder nodes
      rw [Node.rule.injEq]
      simpa [Node.inside] using hnodes
    | block head nodes source =>
      show Node.block head (order nodes) source = .block head nodes source ↔ InOrder nodes
      rw [Node.block.injEq]
      simpa [Node.inside] using hnodes
    | _ => exact ⟨fun _ => .nil, fun _ => rfl⟩

end Cascade

end StyleSlots
