import StyleSlots.Proofs.Cascade.Nodes
import StyleSlots.Proofs.Trace.Placements

/-! # The placements of ordered trees

    Ordering a tree moves placements, and only the order among those of one
    slot matters to a merge.

    - **Scope**: a list of nodes that is ordered and compiled as a whole, at
      the top level or inside a compiled block.
    - **Kinds**: a slot is filled by declarations that stand in a scope
      themselves, and by declarations in the rules of a scope.
    - **Main statement**: `filter_ofTree_order`, placements of one slot come
      in the same order as before, unless both kinds fill the slot in one
      scope. In particular those of one kind always do. -/

namespace StyleSlots

namespace Placement

/-! ## Scopes -/

/-- The lists of nodes that are compiled, with the heads of the blocks
    around them. -/
inductive Scope (scheme : Scheme) (tree : List Node) : List AtRule → List Node → Prop where
  | top : Scope scheme tree [] (tree.filter (entered scheme))
  | block {context : List AtRule} {scope nodes : List Node} {head : AtRule}
      {source : Option Position} : Scope scheme tree context scope →
      .block head nodes source ∈ scope → Scope scheme tree (context ++ [head]) nodes

/-- Whether the placements that `q` accepts are all of one kind in a scope:
    none is a declaration of the scope, or none is in a rule. -/
def OneKind (q : Placement → Bool) (context : List AtRule) (scope : List Node) : Prop :=
  (∀ d, .declaration d ∈ scope → q (direct context d) = false) ∨
    ∀ selectors nodes source, .rule selectors nodes source ∈ scope →
      ∀ p ∈ ofRule context selectors nodes, q p = false

/-! ## Walks -/

mutual

/-- What is placed inside blocks has their heads in its context. -/
theorem prefix_of_mem_ofNode : ∀ (context : List AtRule) (node : Node),
    ∀ p ∈ ofNode context node, context <+: p.context
  | context, .declaration d, p, hp => by
    rw [List.mem_singleton.1 hp]
    exact List.prefix_rfl
  | context, .rule selectors nodes _, p, hp => by
    obtain ⟨d, _, hd⟩ := List.mem_flatMap.1 hp
    obtain ⟨selector, _, rfl⟩ := List.mem_map.1 hd
    exact List.prefix_rfl
  | context, .block head nodes _, p, hp =>
    (List.prefix_append context [head]).trans
      (prefix_of_mem_ofNodes (context ++ [head]) nodes p hp)
  | _, .comment .., _, hp => absurd hp List.not_mem_nil
  | _, .other .., _, hp => absurd hp List.not_mem_nil
  | _, .foreign _, _, hp => absurd hp List.not_mem_nil

theorem prefix_of_mem_ofNodes : ∀ (context : List AtRule) (nodes : List Node),
    ∀ p ∈ ofNodes context nodes, context <+: p.context
  | _, [], _, hp => absurd hp List.not_mem_nil
  | context, node :: more, p, hp => by
    rcases List.mem_append.1 hp with hp | hp
    · exact prefix_of_mem_ofNode context node p hp
    · exact prefix_of_mem_ofNodes context more p hp

end

/-- The slots of a scope are not filled inside its blocks. -/
theorem labels_ne_of_mem_block {context : List AtRule} {head : AtRule} {nodes : List Node}
    {p : Placement} (hp : p ∈ ofNodes (context ++ [head]) nodes) :
    p.slot.labels ≠ context.map AtRule.label := by
  intro heq
  -- the head of the block makes the context of `p` longer
  have hle := (prefix_of_mem_ofNodes _ _ p hp).length_le
  have hlength := congrArg List.length heq
  simp only [slot, List.length_map, List.length_append, List.length_singleton] at hle hlength
  omega

/-- Where the declarations of a list are not accepted, the other nodes are
    all that counts. -/
theorem filter_ofNodes_others {q : Placement → Bool} {context : List AtRule} {nodes : List Node}
    (h : ∀ d, .declaration d ∈ nodes → q (direct context d) = false) :
    (ofNodes context nodes).filter q = (ofNodes context (Node.others nodes)).filter q := by
  induction nodes with
  | nil => rfl
  | cons node nodes ih =>
    have htail := ih fun d hd => h d (List.mem_cons_of_mem _ hd)
    cases hnode : node.isDeclaration with
    | true =>
      obtain ⟨d, rfl⟩ := Node.eq_declaration hnode
      have hothers : Node.others (.declaration d :: nodes) = Node.others nodes := rfl
      have hd : [direct context d].filter q = [] := by simp [h d (List.mem_cons_self ..)]
      rw [hothers, ← htail, ofNodes, List.filter_append, ofNode, hd, List.nil_append]
    | false =>
      rw [Node.others_cons_other hnode, ofNodes, ofNodes, List.filter_append, List.filter_append,
        htail]

/-- Where the other nodes are not accepted, the declarations are all that
    counts. -/
theorem filter_ofNodes_declarations {q : Placement → Bool} {context : List AtRule}
    {nodes : List Node} (h : ∀ node ∈ nodes, node.isDeclaration = false →
      (ofNode context node).filter q = []) :
    (ofNodes context nodes).filter q =
      (Node.declarations nodes).flatMap fun d => [direct context d].filter q := by
  induction nodes with
  | nil => rfl
  | cons node nodes ih =>
    have htail := ih fun n hn => h n (List.mem_cons_of_mem _ hn)
    rw [ofNodes, List.filter_append, htail]
    cases hnode : node.isDeclaration with
    | true =>
      obtain ⟨d, rfl⟩ := Node.eq_declaration hnode
      rw [ofNode, Node.declarations, List.flatMap_cons]
    | false =>
      rw [h node (List.mem_cons_self ..) hnode, List.nil_append,
        Node.declarations_cons_other hnode]

/-! ## Ordering a scope -/

section Ordering

variable {scheme : Scheme} {tree : List Node} {s : Slot} {q : Placement → Bool}

/-- The placements of one slot come out of an ordered rule as before. -/
theorem filter_ofRule_order (hq : ∀ p, q p = true → p.slot = s) (context : List AtRule)
    (selectors : List Text) (nodes : List Node) :
    (ofRule context selectors (Cascade.order nodes)).filter q =
      (ofRule context selectors nodes).filter q := by
  unfold ofRule
  rw [List.filter_flatMap, List.filter_flatMap, Cascade.declarations_order]
  refine Cascade.flatMap_orderScope s.prop ?_ _
  intro d hd
  rw [List.filter_eq_nil_iff]
  intro p hp hqp
  obtain ⟨selector, _, rfl⟩ := List.mem_map.1 hp
  exact hd (congrArg Slot.prop (hq _ hqp))

/-- The declarations of an ordered scope are those of the scope. -/
theorem declaration_mem_order {nodes : List Node} {d : Declaration} :
    .declaration d ∈ Cascade.order nodes ↔ .declaration d ∈ nodes := by
  rw [← Node.mem_declarations, ← Node.mem_declarations, Cascade.declarations_order]
  exact (Cascade.perm_orderScope _).mem_iff

theorem filter_ofNodes_map_orderNode {context : List AtRule} {nodes : List Node}
    (heach : ∀ node ∈ nodes, (ofNode context (Cascade.orderNode node)).filter q =
      (ofNode context node).filter q) :
    (ofNodes context (nodes.map Cascade.orderNode)).filter q =
      (ofNodes context nodes).filter q := by
  induction nodes with
  | nil => rfl
  | cons node nodes ih =>
    rw [List.map_cons, ofNodes, ofNodes, List.filter_append, List.filter_append,
      heach node (List.mem_cons_self ..), ih fun m hm => heach m (List.mem_cons_of_mem _ hm)]

/-- Where no declaration of a scope is accepted, nothing that is accepted
    moves: all other nodes keep their order. -/
theorem filter_ofNodes_order_of_others {context : List AtRule} {nodes : List Node}
    (hnone : ∀ d, .declaration d ∈ nodes → q (direct context d) = false)
    (heach : ∀ node ∈ nodes, (ofNode context (Cascade.orderNode node)).filter q =
      (ofNode context node).filter q) :
    (ofNodes context (Cascade.order nodes)).filter q = (ofNodes context nodes).filter q := by
  rw [filter_ofNodes_others fun d hd => hnone d (declaration_mem_order.1 hd),
    Cascade.others_order,
    filter_ofNodes_map_orderNode fun node h => heach node (Node.mem_others.1 h).1,
    ← filter_ofNodes_others hnone]

/-- Where only the declarations of a scope are accepted, they come in the same
    order as before, because they have one property. -/
theorem filter_ofNodes_order_of_declarations (hq : ∀ p, q p = true → p.slot = s)
    {context : List AtRule} {nodes : List Node}
    (hnone : ∀ node ∈ nodes, node.isDeclaration = false → (ofNode context node).filter q = [])
    (heach : ∀ node ∈ nodes, (ofNode context (Cascade.orderNode node)).filter q =
      (ofNode context node).filter q) :
    (ofNodes context (Cascade.order nodes)).filter q = (ofNodes context nodes).filter q := by
  have hordered : ∀ node ∈ Cascade.order nodes, node.isDeclaration = false →
      (ofNode context node).filter q = [] := by
    intro node hnode hkind
    obtain ⟨before, hbefore, hbkind, rfl⟩ := Cascade.exists_of_mem_order hnode hkind
    rw [heach before hbefore]
    exact hnone before hbefore hbkind
  rw [filter_ofNodes_declarations hordered, filter_ofNodes_declarations hnone,
    Cascade.declarations_order]
  refine Cascade.flatMap_orderScope s.prop ?_ _
  intro d hd
  rw [List.filter_eq_nil_iff]
  intro p hp hqp
  rw [List.mem_singleton.1 hp] at hqp
  exact hd (congrArg Slot.prop (hq _ hqp))

/-- A scope of another slot is filled inside blocks only, so its own
    declarations are not accepted. A scope of the slot is not filled inside
    blocks, so it is enough that one kind is left. -/
theorem filter_ofNodes_order_of_each (hq : ∀ p, q p = true → p.slot = s)
    {context : List AtRule} {nodes : List Node}
    (hkind : context.map AtRule.label = s.labels → OneKind q context nodes)
    (heach : ∀ node ∈ nodes, (ofNode context (Cascade.orderNode node)).filter q =
      (ofNode context node).filter q) :
    (ofNodes context (Cascade.order nodes)).filter q = (ofNodes context nodes).filter q := by
  by_cases hdirect : ∀ d, .declaration d ∈ nodes → q (direct context d) = false
  · exact filter_ofNodes_order_of_others hdirect heach
  · -- some declaration of this scope fills the slot
    obtain ⟨d, hd, hqd⟩ : ∃ d, .declaration d ∈ nodes ∧ q (direct context d) = true := by
      simpa using hdirect
    have hlabels : context.map AtRule.label = s.labels := congrArg Slot.labels (hq _ hqd)
    have hrules := (hkind hlabels).resolve_left fun h => by
      rw [h d hd] at hqd
      cases hqd
    refine filter_ofNodes_order_of_declarations hq ?_ heach
    intro node hnode hother
    rw [List.filter_eq_nil_iff]
    intro p hp hqp
    cases node with
    | declaration d => cases hother
    | rule selectors inner source =>
      rw [hrules _ _ _ hnode p hp] at hqp
      cases hqp
    | block head inner source =>
      refine labels_ne_of_mem_block hp ?_
      rw [hlabels, hq p hqp]
    | _ => cases hp

mutual

theorem filter_ofNode_orderNode (hq : ∀ p, q p = true → p.slot = s)
    (hkind : ∀ context scope, Scope scheme tree context scope →
      context.map AtRule.label = s.labels → OneKind q context scope)
    (context : List AtRule) : ∀ node : Node,
    (∀ head nodes source, node = .block head nodes source →
      Scope scheme tree (context ++ [head]) nodes) →
    (ofNode context (Cascade.orderNode node)).filter q = (ofNode context node).filter q
  | .declaration _, _ => rfl
  | .rule selectors nodes _, _ => filter_ofRule_order hq context selectors nodes
  | .block head nodes source, hblock =>
    have hscope := hblock head nodes source rfl
    filter_ofNodes_order_of_each hq (hkind _ _ hscope) (filter_ofNode_orderNode_of_mem hq hkind
      (context ++ [head]) nodes fun _ _ _ h => .block hscope h)
  | .comment .., _ => rfl
  | .other .., _ => rfl
  | .foreign _, _ => rfl

theorem filter_ofNode_orderNode_of_mem (hq : ∀ p, q p = true → p.slot = s)
    (hkind : ∀ context scope, Scope scheme tree context scope →
      context.map AtRule.label = s.labels → OneKind q context scope)
    (context : List AtRule) : ∀ nodes : List Node,
    (∀ head inner source, .block head inner source ∈ nodes →
      Scope scheme tree (context ++ [head]) inner) →
    ∀ node ∈ nodes, (ofNode context (Cascade.orderNode node)).filter q =
      (ofNode context node).filter q
  | [], _, _, h => absurd h List.not_mem_nil
  | first :: more, hblock, node, h => by
    have hfirst := filter_ofNode_orderNode hq hkind context first fun head inner source heq =>
      hblock head inner source (heq ▸ List.mem_cons_self ..)
    have hmore := filter_ofNode_orderNode_of_mem hq hkind context more
      fun head inner source hmem => hblock head inner source (List.mem_cons_of_mem _ hmem)
    rcases List.mem_cons.1 h with rfl | h
    · exact hfirst
    · exact hmore node h

end

end Ordering

/-! ## Ordered trees -/

theorem entered_orderNode (scheme : Scheme) (node : Node) :
    entered scheme (Cascade.orderNode node) = entered scheme node := by
  cases node <;> rfl

/-- Placements of one slot come out of an ordered tree as before, unless both
    kinds fill the slot in one scope. -/
theorem filter_ofTree_order {scheme : Scheme} {tree : List Node} {s : Slot}
    {q : Placement → Bool} (hq : ∀ p, q p = true → p.slot = s)
    (hkind : ∀ context scope, Scope scheme tree context scope →
      context.map AtRule.label = s.labels → OneKind q context scope) :
    (ofTree scheme (Cascade.order tree)).filter q = (ofTree scheme tree).filter q := by
  unfold ofTree
  rw [← Cascade.order_filter (fun _ => rfl) (entered_orderNode scheme)]
  have htop : Scope scheme tree [] (tree.filter (entered scheme)) := .top
  refine filter_ofNodes_order_of_each hq (hkind _ _ htop) ?_
  exact filter_ofNode_orderNode_of_mem hq hkind [] _ fun _ _ _ h => .block htop h

/-- Placements of one slot and one kind come out of an ordered tree as
    before. -/
theorem filter_ofTree_order_kind (scheme : Scheme) (tree : List Node) (s : Slot) (kind : Bool) :
    (ofTree scheme (Cascade.order tree)).filter (fun p => p.slot = s ∧ p.inRule = kind) =
      (ofTree scheme tree).filter fun p => p.slot = s ∧ p.inRule = kind := by
  refine filter_ofTree_order (s := s) ?_ ?_
  · intro p hp
    exact (of_decide_eq_true hp).1
  · intro context scope _ _
    cases kind with
    | true =>
      refine .inl fun d _ => ?_
      simp [direct]
    | false =>
      refine .inr fun selectors nodes source _ p hp => ?_
      obtain ⟨d, _, hd⟩ := List.mem_flatMap.1 hp
      obtain ⟨selector, _, rfl⟩ := List.mem_map.1 hd
      simp

/-- Ordering a tree neither adds placements nor loses any. -/
theorem perm_ofTree_order (scheme : Scheme) (tree : List Node) :
    (ofTree scheme (Cascade.order tree)).Perm (ofTree scheme tree) := by
  rw [List.perm_iff_count]
  intro p
  -- equal placements fill one slot and are of one kind
  have hcount : ∀ ps : List Placement,
      ps.count p = (ps.filter fun r => r.slot = p.slot ∧ r.inRule = p.inRule).count p := by
    intro ps
    rw [List.count_filter (by simp)]
  rw [hcount, filter_ofTree_order_kind, ← hcount]

end Placement

end StyleSlots
