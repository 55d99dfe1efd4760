import StyleSlots.Proofs.Cascade.Visit

/-! # Ordering nodes

    - **Declarations**: those of an ordered list of nodes are the ordered
      declarations of the list.
    - **Others**: all other nodes stand in the same order as before, each
      with the scopes inside it in order.
    - **Kinds**: what a node is, and which head or selectors it has, does
      not change. -/

namespace StyleSlots

namespace Node

/-- Whether a node is a declaration. -/
def isDeclaration : Node → Bool
  | declaration _ => true
  | _ => false

/-- The nodes of a list that are no declarations. -/
def others (nodes : List Node) : List Node := nodes.filter (! ·.isDeclaration)

theorem eq_declaration {node : Node} (h : node.isDeclaration = true) :
    ∃ d, node = .declaration d := by
  cases node with
  | declaration d => exact ⟨d, rfl⟩
  | _ => cases h

theorem declarations_cons_other {node : Node} (h : node.isDeclaration = false)
    (nodes : List Node) : declarations (node :: nodes) = declarations nodes := by
  cases node with
  | declaration d => cases h
  | _ => simp only [declarations]

theorem others_cons_other {node : Node} (h : node.isDeclaration = false)
    (nodes : List Node) : others (node :: nodes) = node :: others nodes := by
  rw [others, List.filter_cons_of_pos (by simp [h]), others]

theorem mem_declarations {nodes : List Node} {d : Declaration} :
    d ∈ declarations nodes ↔ .declaration d ∈ nodes := by
  induction nodes with
  | nil => simp [declarations]
  | cons node nodes ih => cases node <;> simp [declarations, ih]

theorem mem_others {nodes : List Node} {node : Node} :
    node ∈ others nodes ↔ node ∈ nodes ∧ node.isDeclaration = false := by
  simp [others]

/-- Leaving out nodes that are no declarations leaves the declarations. -/
theorem declarations_filter {p : Node → Bool} (hp : ∀ d, p (.declaration d) = true)
    (nodes : List Node) : declarations (nodes.filter p) = declarations nodes := by
  induction nodes with
  | nil => rfl
  | cons node nodes ih =>
    cases node with
    | declaration d => rw [List.filter_cons_of_pos (hp d), declarations, declarations, ih]
    | _ =>
      rw [List.filter_cons]
      split <;> simp only [declarations, ih]

end Node

namespace Cascade

theorem orderEach_eq_map (nodes : List Node) : orderEach nodes = nodes.map orderNode := by
  induction nodes with
  | nil => rfl
  | cons node nodes ih => rw [orderEach, ih, List.map_cons]

theorem isDeclaration_orderNode (node : Node) :
    (orderNode node).isDeclaration = node.isDeclaration := by
  cases node <;> rfl

theorem declarations_orderEach (nodes : List Node) :
    Node.declarations (orderEach nodes) = Node.declarations nodes := by
  induction nodes with
  | nil => rfl
  | cons node nodes ih => cases node <;> simp only [orderEach, orderNode, Node.declarations, ih]

/-! ## Refilling -/

theorem declarations_refill {nodes : List Node} {ds : List Declaration}
    (h : ds.length = (Node.declarations nodes).length) :
    Node.declarations (refill nodes ds) = ds := by
  induction nodes generalizing ds with
  | nil => exact (List.length_eq_zero_iff.1 h).symm
  | cons node nodes ih =>
    cases node with
    | declaration d =>
      obtain ⟨first, more, rfl⟩ := List.exists_cons_of_length_eq_add_one h
      rw [refill, Node.declarations, ih (by simpa [Node.declarations] using h)]
    | _ => simpa only [refill, Node.declarations] using ih h

theorem others_refill (nodes : List Node) (ds : List Declaration) :
    Node.others (refill nodes ds) = Node.others nodes := by
  unfold Node.others
  induction nodes generalizing ds with
  | nil => cases ds <;> rfl
  | cons node nodes ih =>
    cases node with
    | declaration d =>
      cases ds with
      | nil => simpa [refill, Node.isDeclaration] using ih []
      | cons first more => simpa [refill, Node.isDeclaration] using ih more
    | _ => simpa [refill, Node.isDeclaration] using ih ds

/-- Leaving out nodes that are no declarations can wait until the
    declarations have been replaced. -/
theorem filter_refill {p : Node → Bool} (hp : ∀ d, p (.declaration d) = true)
    (nodes : List Node) (ds : List Declaration) :
    (refill nodes ds).filter p = refill (nodes.filter p) ds := by
  induction nodes generalizing ds with
  | nil => cases ds <;> rfl
  | cons node nodes ih =>
    cases node with
    | declaration d =>
      cases ds with
      | nil => simp only [refill, List.filter_cons_of_pos (hp _), ih]
      | cons first more => simp only [refill, List.filter_cons_of_pos (hp _), ih]
    | _ =>
      simp only [refill, List.filter_cons, ih]
      split <;> simp only [refill]

/-! ## Ordering -/

theorem declarations_order (nodes : List Node) :
    Node.declarations (order nodes) = orderScope (Node.declarations nodes) := by
  unfold order
  apply declarations_refill
  rw [(perm_orderScope _).length_eq, declarations_orderEach]

theorem others_order (nodes : List Node) :
    Node.others (order nodes) = (Node.others nodes).map orderNode := by
  unfold order
  rw [others_refill, orderEach_eq_map, Node.others, List.filter_map, Node.others]
  congr 1
  apply List.filter_congr
  intro node _
  simp [isDeclaration_orderNode]

/-- The nodes of an ordered list that are no declarations. -/
theorem exists_of_mem_order {nodes : List Node} {node : Node} (h : node ∈ order nodes)
    (hnode : node.isDeclaration = false) : ∃ before ∈ nodes,
      before.isDeclaration = false ∧ orderNode before = node := by
  have hmem := Node.mem_others.2 ⟨h, hnode⟩
  rw [others_order] at hmem
  obtain ⟨before, hbefore, heq⟩ := List.mem_map.1 hmem
  obtain ⟨hin, hkind⟩ := Node.mem_others.1 hbefore
  exact ⟨before, hin, hkind, heq⟩

theorem order_filter {p : Node → Bool} (hp : ∀ d, p (.declaration d) = true)
    (horder : ∀ node, p (orderNode node) = p node) (nodes : List Node) :
    order (nodes.filter p) = (order nodes).filter p := by
  unfold order
  rw [filter_refill hp, Node.declarations_filter hp, orderEach_eq_map, orderEach_eq_map,
    List.filter_map]
  congr 2
  apply List.filter_congr
  intro node _
  exact (horder node).symm

/-- What every declaration of a scope contributes for one property comes in
    the same order when the scope is ordered. -/
theorem flatMap_orderScope {α : Type} {f : Declaration → List α} (prop : Text)
    (h : ∀ d, d.prop ≠ prop → f d = []) (ds : List Declaration) :
    (orderScope ds).flatMap f = ds.flatMap f := by
  have hfilter : ∀ es : List Declaration,
      es.flatMap f = (es.filter fun d => d.prop = prop).flatMap f := by
    intro es
    induction es with
    | nil => rfl
    | cons d es ih =>
      by_cases hd : d.prop = prop
      · rw [List.filter_cons_of_pos (by simpa using hd), List.flatMap_cons, List.flatMap_cons, ih]
      · rw [List.filter_cons_of_neg (by simpa using hd), List.flatMap_cons, h d hd, ih,
          List.nil_append]
  rw [hfilter, filter_orderScope, ← hfilter]

/-- What is searched for in the nodes that are no declarations, and is not
    changed by ordering them, is found in an ordered list if it was before. -/
theorem findSome?_order {α : Type} {f : Node → Option α} (hf : ∀ d, f (.declaration d) = none)
    {nodes : List Node} (horder : ∀ node ∈ nodes, f (orderNode node) = f node) :
    (order nodes).findSome? f = nodes.findSome? f := by
  have hothers : ∀ ms : List Node, ms.findSome? f = (Node.others ms).findSome? f := by
    intro ms
    induction ms with
    | nil => rfl
    | cons node ms ih =>
      cases hnode : node.isDeclaration with
      | true =>
        obtain ⟨d, rfl⟩ := Node.eq_declaration hnode
        rw [List.findSome?_cons, hf d]
        exact ih
      | false => rw [Node.others_cons_other hnode, List.findSome?_cons, List.findSome?_cons, ih]
  have hmap : ∀ ms : List Node, (∀ node ∈ ms, node ∈ nodes) →
      (ms.map orderNode).findSome? f = ms.findSome? f := by
    intro ms hms
    induction ms with
    | nil => rfl
    | cons node ms ih =>
      rw [List.map_cons, List.findSome?_cons, List.findSome?_cons,
        horder node (hms node (List.mem_cons_self ..)),
        ih fun m hm => hms m (List.mem_cons_of_mem _ hm)]
  rw [hothers, others_order, hmap _ fun node h => (Node.mem_others.1 h).1, ← hothers]

end Cascade

end StyleSlots
