import StyleSlots.Proofs.Cascade.Nodes

/-! # Shorthands come first in every scope

    - **Settled**: what a visit has written is in order, and nothing that
      is still pending should have come before it. This is so because a
      walk writes everything above an entry before the entry itself, and
      only ever goes up.
    - **Reordered**: what ordering may do to a list of nodes. Declarations
      trade their slots; every other node keeps its place and its head, and
      the same holds for the nodes inside it.
    - **Main statement**: `reordered_order`, ordering does no more than
      that, and leaves no declaration behind one of its constituents, at
      any depth. -/

namespace StyleSlots

namespace Cascade

/-! ## Settled entries -/

/-- Neither a later entry nor a pending one supersedes an entry that was
    written. -/
structure Settled (r : List Entry × List Entry) : Prop where
  written : r.1.Pairwise fun a b => supersedes b.1.prop a.1.prop = false
  pending : ∀ a ∈ r.1, ∀ b ∈ r.2, supersedes b.1.prop a.1.prop = false

namespace Settled

variable {pending work : List Entry} {e : Entry} {first second : List Entry × List Entry}

theorem nil (pending : List Entry) : Settled ([], pending) where
  written := List.Pairwise.nil
  pending := by simp

/-- What is left after the visits to the entries above `e` does not
    supersede `e`. -/
theorem not_above (hnodup : pending.Nodup)
    (h : Visited pending (above e pending) first) :
    ∀ b ∈ first.2, supersedes b.1.prop e.1.prop = false := by
  intro b hb
  by_cases habove : supersedes b.1.prop e.1.prop = true
  · have hmem : b ∈ above e pending := List.mem_filter.2 ⟨h.sublist.subset hb, habove⟩
    exact absurd hb (h.complete hnodup b hmem)
  · simpa using habove

/-- An entry does not supersede what is written on its behalf. -/
theorem not_below (h : Visited pending (above e pending) first) :
    ∀ a ∈ first.1, supersedes e.1.prop a.1.prop = false := by
  intro a ha
  have hrank := h.rank (rank e.1.prop + 1) (by
    intro other hother
    exact rank_lt_of_supersedes (List.mem_filter.1 hother).2) a ha
  by_cases hbelow : supersedes e.1.prop a.1.prop = true
  · have hlt := rank_lt_of_supersedes hbelow
    omega
  · simpa using hbelow

theorem write (hnodup : (pending.erase e).Nodup)
    (hvisited : Visited (pending.erase e) (above e (pending.erase e)) first)
    (hfirst : Settled first) (hafter : Visited first.2 work second) (hsecond : Settled second) :
    Settled (first.1 ++ e :: second.1, second.2) := by
  have hnotAbove := not_above hnodup hvisited
  have hnotBelow := not_below hvisited
  -- what the second visit writes or leaves was pending after the first one
  have hwritten : ∀ b ∈ second.1, b ∈ first.2 := by
    intro b hb
    exact hafter.perm.subset (List.mem_append_left _ hb)
  have hleft : ∀ b ∈ second.2, b ∈ first.2 := fun b hb => hafter.sublist.subset hb
  constructor
  · show (first.1 ++ e :: second.1).Pairwise _
    rw [List.pairwise_append, List.pairwise_cons]
    refine ⟨hfirst.written, ⟨?_, hsecond.written⟩, ?_⟩
    · intro b hb
      exact hnotAbove b (hwritten b hb)
    · intro a ha b hb
      rcases List.mem_cons.1 hb with rfl | hb
      · exact hnotBelow a ha
      · exact hfirst.pending a ha b (hwritten b hb)
  · intro a ha b hb
    have ha' : a ∈ first.1 ∨ a = e ∨ a ∈ second.1 := by simpa using ha
    rcases ha' with ha | rfl | ha
    · exact hfirst.pending a ha b (hleft b hb)
    · exact hnotAbove b (hleft b hb)
    · exact hsecond.pending a ha b hb

end Settled

/-- A visit leaves its entries settled. -/
theorem settled_visit {pending : List Entry} (hnodup : pending.Nodup) (work : List Entry) :
    Settled (visit pending work).1 := by
  -- the step for a written entry also needs to know which entries were visited
  suffices h : Visited pending work (visit pending work).1 ∧
      (pending.Nodup → Settled (visit pending work).1) from h.2 hnodup
  clear hnodup
  induction pending, work using visit_induction with
  | nil pending => exact ⟨Visited.nil pending, fun _ => Settled.nil pending⟩
  | skip pending e work r he ih => exact ⟨ih.1.skip he, ih.2⟩
  | write pending e work first second he ihFirst ihSecond =>
    refine ⟨ihFirst.1.write he ihSecond.1, ?_⟩
    intro hnodup
    have herase : (pending.erase e).Nodup := hnodup.erase e
    have hrest : first.2.Nodup := ihFirst.1.sublist.nodup herase
    exact Settled.write herase ihFirst.1 (ihFirst.2 herase) ihSecond.1 (ihSecond.2 hrest)

/-- In an ordered scope no declaration stands behind one that it supersedes. -/
theorem pairwise_orderScope (ds : List Declaration) :
    (orderScope ds).Pairwise fun a b => supersedes b.prop a.prop = false := by
  show ((visit ds.zipIdx ds.zipIdx).1.1.map Prod.fst).Pairwise _
  rw [List.pairwise_map]
  exact (settled_visit (nodup_zipIdx ds) ds.zipIdx).written

/-! ## Reordered nodes -/

/-- No declaration directly in the list stands behind one that it
    supersedes. -/
def ShorthandsFirst (nodes : List Node) : Prop :=
  ∀ (i j : Nat) (a b : Declaration), i < j →
    nodes[i]? = some (.declaration a) → nodes[j]? = some (.declaration b) →
    supersedes b.prop a.prop = false

mutual

/-- What ordering may put in the place of a node. -/
inductive InPlaceOf : Node → Node → Prop where
  /-- The slot of a declaration may be filled with another one. -/
  | slot (d e : Declaration) : InPlaceOf (.declaration d) (.declaration e)
  | rule (selectors : List Text) (source : Option Position) {nodes nodes' : List Node}
      (inside : Reordered nodes nodes') :
      InPlaceOf (.rule selectors nodes source) (.rule selectors nodes' source)
  | block (head : AtRule) (source : Option Position) {nodes nodes' : List Node}
      (inside : Reordered nodes nodes') :
      InPlaceOf (.block head nodes source) (.block head nodes' source)
  | comment (text : Text) (source : Option Position) :
      InPlaceOf (.comment text source) (.comment text source)
  | other (kind text : Text) (source : Option Position) :
      InPlaceOf (.other kind text source) (.other kind text source)
  | foreign (value : Datum) : InPlaceOf (.foreign value) (.foreign value)

/-- The second list is the first one with its declarations, each exactly
    once, in another order that has shorthands first, and likewise inside
    every rule and block. -/
inductive Reordered : List Node → List Node → Prop where
  | intro {nodes nodes' : List Node} (places : List.Forall₂ InPlaceOf nodes nodes')
      (perm : (Node.declarations nodes').Perm (Node.declarations nodes))
      (first : ShorthandsFirst nodes') : Reordered nodes nodes'

end

theorem shorthandsFirst_of_pairwise {nodes : List Node}
    (h : (Node.declarations nodes).Pairwise fun a b => supersedes b.prop a.prop = false) :
    ShorthandsFirst nodes := by
  induction nodes with
  | nil =>
    intro i j a b _ ha
    simp at ha
  | cons node nodes ih =>
    intro i j a b hij ha hb
    obtain ⟨j, rfl⟩ : ∃ k, j = k + 1 := ⟨j - 1, by omega⟩
    rw [List.getElem?_cons_succ] at hb
    cases i with
    | zero =>
      have hnode : node = .declaration a := by simpa using ha
      subst hnode
      rw [Node.declarations, List.pairwise_cons] at h
      exact h.1 b (Node.mem_declarations.2 (List.mem_of_getElem? hb))
    | succ i =>
      have hrest : (Node.declarations nodes).Pairwise
          fun a b => supersedes b.prop a.prop = false := by
        cases node with
        | declaration d =>
          rw [Node.declarations, List.pairwise_cons] at h
          exact h.2
        | _ => simpa only [Node.declarations] using h
      rw [List.getElem?_cons_succ] at ha
      exact ih hrest i j a b (by omega) ha hb

/-- Slots may be filled with any declarations. -/
theorem forall₂_refill {nodes nodes' : List Node} (h : List.Forall₂ InPlaceOf nodes nodes')
    (ds : List Declaration) : List.Forall₂ InPlaceOf nodes (refill nodes' ds) := by
  induction h generalizing ds with
  | nil => exact List.Forall₂.nil
  | @cons node node' _ _ hnode _ ih =>
    cases hnode with
    | slot d e =>
      cases ds with
      | nil => exact List.Forall₂.cons (.slot d e) (ih [])
      | cons new ds => exact List.Forall₂.cons (.slot d new) (ih ds)
    | rule selectors source inside =>
      exact List.Forall₂.cons (.rule selectors source inside) (ih ds)
    | block head source inside => exact List.Forall₂.cons (.block head source inside) (ih ds)
    | comment text source => exact List.Forall₂.cons (.comment text source) (ih ds)
    | other kind text source => exact List.Forall₂.cons (.other kind text source) (ih ds)
    | foreign value => exact List.Forall₂.cons (.foreign value) (ih ds)

/-- A list is reordered if the nodes inside it are. -/
theorem Reordered.of_each {nodes : List Node}
    (h : List.Forall₂ InPlaceOf nodes (orderEach nodes)) : Reordered nodes (order nodes) := by
  refine .intro (forall₂_refill h _) ?_ (shorthandsFirst_of_pairwise ?_)
  · rw [declarations_order]
    exact perm_orderScope _
  · rw [declarations_order]
    exact pairwise_orderScope _

mutual

theorem inPlaceOf_orderNode : ∀ node : Node, InPlaceOf node (orderNode node)
  | .declaration d => .slot d d
  | .rule selectors nodes source =>
    .rule selectors source (Reordered.of_each (forall₂_orderEach nodes))
  | .block head nodes source => .block head source (Reordered.of_each (forall₂_orderEach nodes))
  | .comment text source => .comment text source
  | .other kind text source => .other kind text source
  | .foreign value => .foreign value

theorem forall₂_orderEach : ∀ nodes : List Node, List.Forall₂ InPlaceOf nodes (orderEach nodes)
  | [] => .nil
  | node :: nodes => .cons (inPlaceOf_orderNode node) (forall₂_orderEach nodes)

end

/-- Ordering moves declarations among the slots of their own scope and
    changes nothing else; and in no scope, however deep, a declaration is
    left behind one of its constituents. -/
theorem reordered_order (nodes : List Node) : Reordered nodes (order nodes) :=
  Reordered.of_each (forall₂_orderEach nodes)

end Cascade

end StyleSlots
