import StyleSlots.Proofs.Node.Sameness
import StyleSlots.Proofs.Ordered.Insertions

/-! # Texts put one behind the other

    A style sheet is put together from texts that were written one by one.
    Nothing is known about it but its parts.

    - **Closed texts**: the text of a node that is one item with an end of
      its own, whatever stands behind it.
    - **Copies**: of such texts two are equal exactly if their nodes are the
      same, so leaving out copies among the texts leaves out copies among the
      nodes.
    - **Sequences**: with nothing or with gaps between them, closed texts are
      read as their nodes, first to last. -/

namespace StyleSlots

namespace Item

open Node

/-! ## Closed texts -/

/-- Whether `t` is the text of a node, and of one item with an end of its own
    that means this node. -/
structure Closed (t : Text) (n : Node) : Prop where
  css_eq : n.css = t
  item   : ∃ item, Express [item] t [n] ∧ item.isOpen = false

/-- What is expressed is read. -/
theorem exists_ofText_of_express {items : List Item} {t : Text} {nodes : List Node}
    (h : Express items t nodes) (source : Text) :
    ∃ read, Node.ofText source t = .ok read ∧ agreesAll read nodes = true :=
  ⟨_, Node.ofText_eq_ok_iff.2 ⟨items, ⟨h.legal, h.written⟩, h.proper _, rfl⟩, h.meant _⟩

namespace Closed

variable {s t : Text} {m n : Node}

/-- A closed text is read as its node, which has no foreign data then. -/
theorem exists_unplaced (h : Closed t n) :
    ∃ read, Node.ofText [] t = .ok read ∧ unplacedAll read = [n.unplaced] ∧
      n.isNative = true := by
  obtain ⟨item, hitem, -⟩ := h.item
  obtain ⟨read, hread, hagrees⟩ := exists_ofText_of_express hitem []
  have hnative := isNativeAll_of_ofText hread
  have hunplaced : unplacedAll read = [n.unplaced] :=
    (agreesAll_iff_unplacedAll_eq read [n] hnative).1 hagrees
  refine ⟨read, hread, hunplaced, ?_⟩
  rw [← isNativeAll_unplacedAll, hunplaced, isNativeAll, isNative_unplaced] at hnative
  simpa [isNativeAll] using hnative

/-- Nodes of closed texts are the same exactly if the texts are equal. -/
theorem agrees_iff_eq (hm : Closed s m) (hn : Closed t n) : m.agrees n = true ↔ s = t := by
  obtain ⟨read, hread, hunplaced, hnative⟩ := hm.exists_unplaced
  obtain ⟨read', hread', hunplaced', -⟩ := hn.exists_unplaced
  rw [agrees_iff_unplaced_eq m n hnative]
  constructor
  · intro hsame
    calc s = m.unplaced.css := by rw [css_unplaced, hm.css_eq]
      _ = n.unplaced.css := by rw [hsame]
      _ = t := by rw [css_unplaced, hn.css_eq]
  · rintro rfl
    -- one text is read in one way only
    obtain rfl : read = read' := Except.ok.inj (hread.symm.trans hread')
    exact (List.cons.inj (hunplaced.symm.trans hunplaced')).1

/-- No item is without characters. -/
theorem ne_nil (h : Closed t n) : t ≠ [] := by
  obtain ⟨item, hitem, -⟩ := h.item
  rw [← hitem.written]
  intro hnil
  cases eq_nil_of_writtenAll hitem.legal hnil

end Closed

theorem ne_nil_of_mem_closed {texts : List Text} {nodes : List Node}
    (h : List.Forall₂ Closed texts nodes) : ∀ t ∈ texts, t ≠ [] := by
  induction h with
  | nil => simp
  | cons hfirst _ ih => exact List.forall_mem_cons.2 ⟨hfirst.ne_nil, ih⟩

/-- Copies among closed texts are copies among their nodes. -/
theorem closed_distinct {texts : List Text} {nodes : List Node}
    (h : List.Forall₂ Closed texts nodes) :
    List.Forall₂ Closed (distinct texts) (distinctNodes nodes) := by
  refine forall₂_eraseDupsBy ?_ h
  intro s m t n hm hn
  have hequal : decide (t = s) = n.agrees m := by
    rw [Bool.eq_iff_iff, decide_eq_true_iff, hn.agrees_iff_eq hm]
  exact hequal

/-! ## Sequences -/

theorem express_gap {c : Char} (h : isGap c = true) : Express [gap c] [c] [] where
  legal := ⟨h, by simp [isOpen], trivial⟩
  written := rfl
  proper := fun _ _ hd => by cases hd
  meant := fun _ => rfl

/-- Gaps in front of items mean nothing. -/
theorem Express.gaps_append {more : List Item} {t : Text} {nodes : List Node}
    (h : Express more t nodes) {separator : Text} (hgap : ∀ c ∈ separator, isGap c = true) :
    Express (separator.map gap ++ more) (separator ++ t) nodes := by
  induction separator with
  | nil => exact h
  | cons c separator ih =>
    obtain ⟨hc, hmore⟩ := List.forall_mem_cons.1 hgap
    exact (express_gap hc).cons (ih hmore) (by simp [isOpen])

/-- Closed texts with gaps between them express their nodes. -/
theorem exists_items_join {separator : Text} (hgap : ∀ c ∈ separator, isGap c = true)
    {texts : List Text} {nodes : List Node} (h : List.Forall₂ Closed texts nodes) :
    ∃ items, Express items (Text.join separator texts) nodes := by
  induction h with
  | nil => exact ⟨[], express_nil⟩
  | @cons t n texts nodes hfirst hmore ih =>
    obtain ⟨item, hitem, hopen⟩ := hfirst.item
    cases hmore with
    | nil => exact ⟨[item], hitem⟩
    | @cons next n' texts nodes _ _ =>
      obtain ⟨items, hitems⟩ := ih
      have hjoin : Text.join separator (t :: next :: texts) =
          t ++ (separator ++ Text.join separator (next :: texts)) := by
        rw [Text.join, List.append_assoc]
        simp
      rw [hjoin]
      exact ⟨_, hitem.cons (hitems.gaps_append hgap) (by simp [hopen])⟩

end Item

end StyleSlots
