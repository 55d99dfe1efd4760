import StyleSlots.Proofs.Cascade.Placements
import StyleSlots.Proofs.Trace.Made

/-! # Where placements come from

    A placement is put together from parts of a tree, and nothing else goes
    into it.

    - **Origin**: its declaration stands in the tree. Its selector belongs to
      a rule there, unless it is the element itself, and each head of its
      context to a block. All of them are found at the place that it is made
      for, and on the way there.
    - **Order**: an ordered tree has the same placements, so this is as true
      of them.
    - **Main statement**: `plain_of_ofText`, the parts of a placement are as
      they have been read. -/

namespace StyleSlots

open Node

/-! ## Origins -/

namespace Place

variable {scheme : Scheme} {nodes : List Node} {p : Place} {r : Placement}

/-- A placement is put together at its place. -/
theorem parts_of_mem_placements (h : r ∈ p.placements scheme) :
    p.node = .declaration r.declaration ∧ r.context = p.context ∧
      (r.selector = [] ∨ r.selector ∈ p.selectors) := by
  cases hnode : p.node with
  | declaration d =>
    rw [placements, hnode] at h
    dsimp only at h
    split at h
    · rw [List.mem_singleton.1 h]
      exact ⟨rfl, rfl, .inl rfl⟩
    · split at h
      · obtain ⟨selector, hselector, rfl⟩ := List.mem_map.1 h
        refine ⟨rfl, rfl, ?_⟩
        split at hselector
        · exact .inl (List.mem_singleton.1 hselector)
        · exact .inr hselector
      · cases h
  | _ =>
    rw [placements, hnode] at h
    cases h

theorem exists_rule_of_mem_selectors (hp : p.In nodes) {s : Text} (hs : s ∈ p.selectors) :
    ∃ selectors contents source, Occurs (.rule selectors contents source) nodes ∧
      s ∈ selectors := by
  rw [selectors] at hs
  cases hlast : p.around.getLast? with
  | none =>
    rw [hlast] at hs
    cases hs
  | some outer =>
    rw [hlast] at hs
    have houter := occurs_of_mem_around hp (List.mem_of_getLast? hlast)
    cases outer with
    | rule selectors contents source => exact ⟨selectors, contents, source, houter, hs⟩
    | _ => cases hs

theorem exists_block_of_mem_context (hp : p.In nodes) {head : AtRule} (hhead : head ∈ p.context) :
    ∃ contents source, Occurs (.block head contents source) nodes := by
  obtain ⟨outer, hmem, heq⟩ := List.mem_filterMap.1 hhead
  have houter := occurs_of_mem_around hp hmem
  cases outer with
  | block outerHead contents source =>
    obtain rfl : outerHead = head := Option.some.inj heq
    exact ⟨contents, source, houter⟩
  | _ => cases heq

end Place

/-- Whether the parts of a placement stand in a list of nodes. -/
structure Placement.Origin (nodes : List Node) (p : Placement) : Prop where
  declaration : Occurs (.declaration p.declaration) nodes
  selector    : p.selector = [] ∨ ∃ selectors contents source,
    Occurs (.rule selectors contents source) nodes ∧ p.selector ∈ selectors
  head        : ∀ head ∈ p.context, ∃ contents source, Occurs (.block head contents source) nodes

theorem Place.origin_of_mem_placements {scheme : Scheme} {nodes : List Node} {p : Place}
    (hp : p.In nodes) {r : Placement} (h : r ∈ p.placements scheme) : r.Origin nodes := by
  obtain ⟨hnode, hcontext, hselector⟩ := parts_of_mem_placements h
  refine ⟨?_, hselector.imp_right (exists_rule_of_mem_selectors hp), ?_⟩
  · rw [← hnode]
    exact occurs_of_in hp
  · rw [hcontext]
    exact fun head hhead => exists_block_of_mem_context hp hhead

/-! ## Compilations -/

/-- What is placed when a tree is compiled comes from the tree. -/
theorem Compiler.origin_of_mem_placements {c : Compiler} {nodes : List Node} {p : Placement}
    (h : p ∈ c.placements nodes) : p.Origin nodes := by
  have hmem : p ∈ Placement.ofTree c.scheme nodes := by
    rw [placements, prepare] at h
    split at h
    · exact (Placement.perm_ofTree_order c.scheme nodes).mem_iff.1 h
    · exact h
  rw [Placement.ofTree_eq_made] at hmem
  obtain ⟨q, hq, hp⟩ := List.mem_flatMap.1 hmem
  exact q.origin_of_mem_placements (mem_places_iff.1 (List.mem_filter.1 hq).1) hp

namespace Placement

/-- Whether the parts of a placement are as they are read. -/
structure Plain (p : Placement) : Prop where
  declaration : p.declaration.Plain
  selector    : Text.IsTrimmed p.selector
  context     : ∀ head ∈ p.context, head.Plain

/-- The placements of a tree that has been read are plain. -/
theorem plain_of_ofText {source t : Text} {nodes : List Node}
    (hread : Node.ofText source t = .ok nodes) {c : Compiler} {p : Placement}
    (hp : p ∈ c.placements nodes) : p.Plain := by
  obtain ⟨hdeclaration, hselector, hhead⟩ := Compiler.origin_of_mem_placements hp
  refine ⟨Node.plain_of_ofText hread hdeclaration, ?_, ?_⟩
  · rcases hselector with hnil | ⟨selectors, contents, start, hrule, hmem⟩
    · rw [hnil]
      exact Text.isTrimmed_nil
    · exact (Node.plain_of_ofText hread hrule).1.trimmed _ hmem
  · intro head hmem
    obtain ⟨contents, start, hblock⟩ := hhead head hmem
    exact Node.plain_of_ofText hread hblock

end Placement

end StyleSlots
