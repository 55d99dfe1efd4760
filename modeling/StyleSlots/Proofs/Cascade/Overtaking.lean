import StyleSlots.Proofs.Cascade.Emissions

/-! # What ordering moves

    Ordering lets a shorthand pass what it supersedes. A declaration that
    supersedes nothing is never written before one in front of it.

    - **Overtaking**: an entry overtakes another one if it is authored behind
      it and written in front of it.
    - **Reasons**: a walk starts from the first entry that is not written yet
      and only goes up. What is superseded by way of others is superseded,
      so all that the walk writes supersedes the entry that it starts from,
      however long the way is.
    - **Scopes**: the top level, and what is inside of each rule and block. A
      scope stands in the ordered tree where it stood before.
    - **Main statement**: `order_moves_least`, in every scope of a tree an entry
      is overtaken for a reason only, and an ordered tree is left as it is. -/

namespace StyleSlots

namespace Cascade

/-! ## One scope -/

/-- Whether `f` is authored behind `e` and written in front of it. -/
def Overtakes (es : List Entry) (f e : Entry) : Prop := e.2 < f.2 ∧ [f, e].Sublist es

/-- What is above an entry, or above something above it, supersedes it. -/
theorem supersedes_of_led {e x : Entry} {pending : List Entry}
    (h : x ∈ above e pending ∨ ∃ y ∈ above e pending, supersedes x.1.prop y.1.prop = true) :
    supersedes x.1.prop e.1.prop = true := by
  rcases h with habove | ⟨y, hy, hxy⟩
  · exact (List.mem_filter.1 habove).2
  · exact supersedes_trans hxy (List.mem_filter.1 hy).2

/-- What a visit writes is visited itself, or supersedes what is. -/
theorem visited_or_supersedes (pending work : List Entry) : ∀ x ∈ (visit pending work).1.1,
    x ∈ work ∨ ∃ y ∈ work, supersedes x.1.prop y.1.prop = true := by
  induction pending, work using visit_induction with
  | nil pending => simp
  | skip pending e work r he ih =>
    intro x hx
    rcases ih x hx with hwork | ⟨y, hy, hxy⟩
    · exact .inl (List.mem_cons_of_mem _ hwork)
    · exact .inr ⟨y, List.mem_cons_of_mem _ hy, hxy⟩
  | write pending e work first second he ihFirst ihSecond =>
    intro x hx
    have hx' : x ∈ first.1 ∨ x = e ∨ x ∈ second.1 := by simpa using hx
    rcases hx' with hx | rfl | hx
    · exact .inr ⟨e, List.mem_cons_self .., supersedes_of_led (ihFirst x hx)⟩
    · exact .inl (List.mem_cons_self ..)
    · rcases ihSecond x hx with hwork | ⟨y, hy, hxy⟩
      · exact .inl (List.mem_cons_of_mem _ hwork)
      · exact .inr ⟨y, List.mem_cons_of_mem _ hy, hxy⟩

/-- A walk starts from the first entry that is pending. What is overtaken in
    it is overtaken by what supersedes that entry, or later on. -/
theorem Overtakes.of_write {pending work : List Entry} {start e f : Entry}
    {first second : List Entry × List Entry} (hpending : pending.Sublist (start :: work))
    (hstart : ∀ x ∈ work, start.2 < x.2) (hmem : start ∈ pending)
    (hfirst : Visited (pending.erase start) (above start (pending.erase start)) first)
    (hled : ∀ x ∈ first.1, supersedes x.1.prop start.1.prop = true)
    (hsecond : Visited first.2 work second)
    (h : Overtakes (first.1 ++ start :: second.1) f e) :
    start.2 ≤ e.2 ∧ supersedes f.1.prop start.1.prop = true ∨ Overtakes second.1 f e := by
  obtain ⟨hbehind, hsublist⟩ := h
  -- all that is written was pending, so it was not authored before the start
  have hwritten : (first.1 ++ start :: second.1).Subset pending := by
    intro x hx
    exact (hfirst.write hmem hsecond).perm.subset (List.mem_append_left _ hx)
  have hlow : start.2 ≤ e.2 := by
    have he : e ∈ pending := hwritten (hsublist.subset (by simp))
    rcases List.mem_cons.1 (hpending.subset he) with rfl | he
    · exact Nat.le_refl _
    · exact (hstart e he).le
  by_cases hf : f ∈ first.1
  · exact .inl ⟨hlow, hled f hf⟩
  · right
    refine ⟨hbehind, ?_⟩
    obtain ⟨before, behind, heq, hbefore, hrest⟩ := List.sublist_append_iff.1 hsublist
    cases before with
    | cons x before =>
      obtain ⟨rfl, -⟩ := List.cons.inj heq
      exact absurd (hbefore.subset (List.mem_cons_self ..)) hf
    | nil =>
      obtain rfl : [f, e] = behind := heq
      rcases List.sublist_cons_iff.1 hrest with hrest | ⟨rest, hcons, -⟩
      · exact hrest
      · -- the start itself was authored first
        obtain ⟨rfl, -⟩ := List.cons.inj hcons
        omega

/-- Entries that are visited as they were authored are overtaken by what
    supersedes one of them, or one that was authored before. -/
theorem exists_superseded_of_visit {pending work : List Entry} {e f : Entry}
    (hordered : work.Pairwise fun a b => a.2 < b.2) (hpending : pending.Sublist work)
    (h : Overtakes (visit pending work).1.1 f e) :
    ∃ g ∈ work, g.2 ≤ e.2 ∧ supersedes f.1.prop g.1.prop = true := by
  induction work generalizing pending with
  | nil =>
    rw [visit] at h
    cases h.2
  | cons start work ih =>
    obtain ⟨hstart, hwork⟩ := List.pairwise_cons.1 hordered
    by_cases hmem : start ∈ pending
    · rw [visit, dif_pos hmem] at h
      have hfirst := visited_visit (pending.erase start) (above start (pending.erase start))
      have hled : ∀ x ∈ (visit (pending.erase start) (above start (pending.erase start))).1.1,
          supersedes x.1.prop start.1.prop = true :=
        fun x hx => supersedes_of_led (visited_or_supersedes _ _ x hx)
      rcases h.of_write hpending hstart hmem hfirst hled (visited_visit _ work) with
        ⟨hlow, hreason⟩ | hlater
      · exact ⟨start, List.mem_cons_self .., hlow, hreason⟩
      · have hrest := hpending.erase start
        rw [List.erase_cons_head] at hrest
        obtain ⟨g, hg, hreason⟩ := ih hwork (hfirst.sublist.trans hrest) hlater
        exact ⟨g, List.mem_cons_of_mem _ hg, hreason⟩
    · rw [visit, dif_neg hmem] at h
      have hrest : pending.Sublist work := by
        rcases List.sublist_cons_iff.1 hpending with hrest | ⟨rest, rfl, -⟩
        · exact hrest
        · exact absurd (List.mem_cons_self ..) hmem
      obtain ⟨g, hg, hreason⟩ := ih hwork hrest h
      exact ⟨g, List.mem_cons_of_mem _ hg, hreason⟩

/-- What ordering does to a scope with the declarations `ds`, whose entries it
    writes in the order of `es`. -/
structure MovesLeast (ds : List Declaration) (es : List Entry) : Prop where
  perm   : es.Perm ds.zipIdx
  /-- Declarations of one property keep their authored order. -/
  stable : ∀ e f, Overtakes es f e → f.1.prop ≠ e.1.prop
  /-- An entry is overtaken only by a shorthand that supersedes it, or one
      authored before it. -/
  reason : ∀ e f, Overtakes es f e → isShorthand f.1.prop = true ∧
    ∃ g ∈ ds.zipIdx, g.2 ≤ e.2 ∧ supersedes f.1.prop g.1.prop = true
  /-- What supersedes nothing in the scope overtakes nothing. -/
  idle   : ∀ f, (∀ d ∈ ds, supersedes f.1.prop d.prop = false) → ∀ e, ¬ Overtakes es f e
  /-- A scope that is in order is written as it stands. -/
  kept   : (ds.Pairwise fun a b => supersedes b.prop a.prop = false) → es = ds.zipIdx

section Scope

variable {ds : List Declaration} {e f : Entry}

theorem prop_ne_of_overtakes (h : Overtakes (written ds) f e) : f.1.prop ≠ e.1.prop := by
  intro hprop
  have hpair : [f, e].filter (hasProp e.1.prop) = [f, e] := by simp [hasProp, hprop]
  have hsublist := h.2.filter (hasProp e.1.prop)
  rw [hpair, filter_written] at hsublist
  -- among the authored entries the two stand the other way round
  have hordered := (pairwise_zipIdx ds).sublist (hsublist.trans List.filter_sublist)
  have hlt : f.2 < e.2 := by simpa using hordered
  exact absurd h.1 (Nat.lt_asymm hlt)

theorem exists_superseded_of_overtakes (h : Overtakes (written ds) f e) :
    ∃ g ∈ ds.zipIdx, g.2 ≤ e.2 ∧ supersedes f.1.prop g.1.prop = true :=
  exists_superseded_of_visit (pairwise_zipIdx ds) (List.Sublist.refl _) h

theorem movesLeast_written (ds : List Declaration) : MovesLeast ds (written ds) where
  perm   := perm_written ds
  stable := fun _ _ h => prop_ne_of_overtakes h
  reason := by
    intro e f h
    obtain ⟨g, hg, hlow, hsupersedes⟩ := exists_superseded_of_overtakes h
    exact ⟨isShorthand_of_supersedes hsupersedes, g, hg, hlow, hsupersedes⟩
  idle   := by
    intro f hnone e h
    obtain ⟨g, hg, -, hsupersedes⟩ := exists_superseded_of_overtakes h
    have hmem : g.1 ∈ ds := List.fst_mem_of_mem_zipIdx hg
    rw [hnone g.1 hmem] at hsupersedes
    cases hsupersedes
  kept   := written_of_pairwise

end Scope

/-! ## Scopes of a tree -/

/-- The scopes of a tree, each with what it becomes when the tree is ordered:
    the top level, and what is inside of a node with what is inside of the
    node in its place. -/
inductive OrderedScope (tree : List Node) : List Node → List Node → Prop where
  | top : OrderedScope tree tree (order tree)
  | inside {scope ordered : List Node} {i : Nat} {node node' : Node}
      (outer : OrderedScope tree scope ordered) (before : scope[i]? = some node)
      (after : ordered[i]? = some node') (hnode : node.isDeclaration = false) :
      OrderedScope tree node.inside node'.inside

theorem getElem?_refill {nodes : List Node} {i : Nat} {node : Node} (h : nodes[i]? = some node)
    (hnode : node.isDeclaration = false) (ds : List Declaration) :
    (refill nodes ds)[i]? = some node := by
  induction nodes generalizing i ds with
  | nil => cases h
  | cons first more ih =>
    cases i with
    | zero =>
      obtain rfl : first = node := by simpa using h
      cases first with
      | declaration d => cases hnode
      | _ => rfl
    | succ i =>
      rw [List.getElem?_cons_succ] at h
      cases first with
      | declaration d =>
        cases ds with
        | nil => exact ih h []
        | cons new ds => exact ih h ds
      | _ => exact ih h ds

/-- A node that is no declaration keeps its place. -/
theorem getElem?_order {nodes : List Node} {i : Nat} {node : Node} (h : nodes[i]? = some node)
    (hnode : node.isDeclaration = false) : (order nodes)[i]? = some (orderNode node) := by
  refine getElem?_refill ?_ (by rw [isDeclaration_orderNode, hnode]) _
  rw [orderEach_eq_map, List.getElem?_map, h, Option.map_some]

/-- Every scope is ordered like a tree of its own. -/
theorem OrderedScope.eq_order {tree scope ordered : List Node}
    (h : OrderedScope tree scope ordered) : ordered = order scope := by
  induction h with
  | top => rfl
  | inside outer before after hnode ih =>
    rw [ih, getElem?_order before hnode] at after
    obtain rfl := Option.some.inj after
    exact inside_orderNode _

/-- In a scope that is in order, nodes change inside only. -/
theorem order_of_shorthandsFirst {nodes : List Node} (h : ShorthandsFirst nodes) :
    order nodes = nodes.map orderNode := by
  have hscope := orderScope_eq_self_iff.2 (pairwise_of_shorthandsFirst h)
  rw [order, hscope, ← declarations_orderEach, refill_declarations, orderEach_eq_map]

theorem order_eq_self_iff {nodes : List Node} : order nodes = nodes ↔ InOrder nodes :=
  order_eq_self_iff_of_each fun node _ => orderNode_eq_self_iff node

theorem inOrder_order (nodes : List Node) : InOrder (order nodes) :=
  (Reordered.of_each (forall₂_orderEach nodes)).inOrder

/-- In every scope of a tree, the top level and those further inside, the
    declarations are written in an order that moves no more than it must. A
    scope that is in order keeps all declarations in their places. A tree
    in which every scope is in order is left as it is, and so is a tree that
    has been ordered. -/
theorem order_moves_least (tree : List Node) :
    (∀ scope ordered, OrderedScope tree scope ordered →
      Node.declarations ordered = (written (Node.declarations scope)).map Prod.fst ∧
        MovesLeast (Node.declarations scope) (written (Node.declarations scope)) ∧
        (ShorthandsFirst scope → ordered = scope.map orderNode)) ∧
      (InOrder tree → order tree = tree) ∧ order (order tree) = order tree := by
  refine ⟨?_, order_eq_self_iff.2, order_eq_self_iff.2 (inOrder_order tree)⟩
  intro scope ordered h
  rw [h.eq_order]
  exact ⟨declarations_order scope, movesLeast_written _, order_of_shorthandsFirst⟩

/-- Behind two declarations that it does not supersede, and one that it does,
    stands a shorthand. -/
def marginBlock : Node :=
  .block ⟨"media".toList, "print".toList⟩
    [.declaration ⟨"margin-top".toList, "1px".toList, false, none⟩,
     .declaration ⟨"color".toList, "red".toList, false, none⟩,
     .rule [":hover".toList] [] none,
     .declaration ⟨"margin-inline".toList, "2px".toList, false, none⟩,
     .declaration ⟨"margin".toList, "0".toList, false, none⟩] none

/-- The shorthand overtakes a property that has nothing to do with it, for the
    sake of the one in front of that. -/
theorem order_moves_least_margin :
    OrderedScope [marginBlock] marginBlock.inside (order marginBlock.inside) ∧
      Overtakes (written (Node.declarations marginBlock.inside))
        (⟨"margin".toList, "0".toList, false, none⟩, 3)
        (⟨"color".toList, "red".toList, false, none⟩, 1) ∧
      (∃ g ∈ (Node.declarations marginBlock.inside).zipIdx, g.2 ≤ 1 ∧
        supersedes "margin".toList g.1.prop = true) ∧
      InOrder (order [marginBlock]) ∧ order (order [marginBlock]) = order [marginBlock] := by
  have hscope : OrderedScope [marginBlock] marginBlock.inside (order marginBlock.inside) :=
    @OrderedScope.inside [marginBlock] _ _ 0 marginBlock (orderNode marginBlock) .top rfl rfl rfl
  have hwritten : written (Node.declarations marginBlock.inside) =
      [(⟨"margin".toList, "0".toList, false, none⟩, 3),
       (⟨"margin-top".toList, "1px".toList, false, none⟩, 0),
       (⟨"color".toList, "red".toList, false, none⟩, 1),
       (⟨"margin-inline".toList, "2px".toList, false, none⟩, 2)] := by decide +kernel
  have hovertakes : Overtakes (written (Node.declarations marginBlock.inside))
      (⟨"margin".toList, "0".toList, false, none⟩, 3)
      (⟨"color".toList, "red".toList, false, none⟩, 1) := by
    rw [hwritten]
    exact ⟨by decide, by decide⟩
  obtain ⟨-, hmoves, -⟩ := (order_moves_least [marginBlock]).1 _ _ hscope
  obtain ⟨-, hreason⟩ := hmoves.reason _ _ hovertakes
  have hordered := inOrder_order [marginBlock]
  exact ⟨hscope, hovertakes, hreason, hordered,
    (order_moves_least (order [marginBlock])).2.1 hordered⟩

end Cascade

end StyleSlots
