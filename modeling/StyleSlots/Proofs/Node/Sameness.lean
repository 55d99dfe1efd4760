import Mathlib.Data.List.Forall2
import StyleSlots.Proofs.Node.RoundTrip

/-! # Nodes that are the same

    Two nodes are the same if they differ in positions only. That is asked
    pair by pair; what it amounts to is said here.

    - **Unplaced nodes**: a node without the positions in it. Of trees
      without foreign data, and no text is read as such data, those are the
      same that are equal without their positions.
    - **Text**: it does not depend on positions or comments.
    - **Distinct nodes**: of a list, each node that is not the same as one in
      front of it. -/

namespace StyleSlots

/-! ## Leaving out copies -/

section Copies

variable {α β : Type} {r : α → α → Bool} {s : β → β → Bool}

/-- What holds of a list without the copies of its first element holds of the
    list. -/
theorem copies_induction (r : α → α → Bool) {P : List α → Prop} (nil : P [])
    (cons : ∀ a as, P (as.filter fun b => decide (r b a = false)) → P (a :: as)) :
    ∀ as, P as
  | [] => nil
  | a :: as => cons a as (copies_induction r nil cons _)
termination_by as => as.length
decreasing_by
  exact Nat.lt_succ_of_le (List.length_filter_le ..)

theorem mem_of_mem_eraseDupsBy {a : α} {as : List α} (h : a ∈ as.eraseDupsBy r) : a ∈ as := by
  induction as using copies_induction r with
  | nil => exact h
  | cons first more ih =>
    rw [List.eraseDupsBy_cons] at h
    rcases List.mem_cons.1 h with rfl | h
    · exact List.mem_cons_self ..
    · exact List.mem_cons_of_mem _ (List.mem_filter.1 (ih h)).1

/-- No copies are left. -/
theorem pairwise_eraseDupsBy (r : α → α → Bool) (as : List α) :
    (as.eraseDupsBy r).Pairwise fun a b => r b a = false := by
  induction as using copies_induction r with
  | nil => exact .nil
  | cons first more ih =>
    rw [List.eraseDupsBy_cons]
    refine .cons ?_ ih
    intro b hb
    exact of_decide_eq_true (List.mem_filter.1 (mem_of_mem_eraseDupsBy hb)).2

/-- Lists are dealt with one by one if no element of the second one is a copy
    of an element of the first one. -/
theorem eraseDupsBy_append {as bs : List α} (h : ∀ a ∈ as, ∀ b ∈ bs, r b a = false) :
    (as ++ bs).eraseDupsBy r = as.eraseDupsBy r ++ bs.eraseDupsBy r := by
  induction as using copies_induction r with
  | nil => rfl
  | cons first more ih =>
    have hkept : bs.filter (fun b => decide (r b first = false)) = bs := by
      rw [List.filter_eq_self]
      intro b hb
      exact decide_eq_true (h first (List.mem_cons_self ..) b hb)
    rw [List.cons_append, List.eraseDupsBy_cons, List.filter_append, hkept, ih,
      List.eraseDupsBy_cons, List.cons_append]
    intro a ha b hb
    exact h a (List.mem_cons_of_mem _ (List.mem_filter.1 ha).1) b hb

/-- Where two lists correspond to each other, and copies in one to copies in
    the other, what is left of the lists corresponds too. -/
theorem forall₂_eraseDupsBy {R : α → β → Prop}
    (hcopies : ∀ a b a' b', R a b → R a' b' → r a' a = s b' b) {as : List α} {bs : List β}
    (h : List.Forall₂ R as bs) : List.Forall₂ R (as.eraseDupsBy r) (bs.eraseDupsBy s) := by
  induction as using copies_induction r generalizing bs with
  | nil =>
    cases h
    exact .nil
  | cons a as ih =>
    cases h with
    | @cons _ b _ bs hfirst hmore =>
      rw [List.eraseDupsBy_cons, List.eraseDupsBy_cons]
      refine .cons hfirst (ih ?_)
      refine List.rel_filter ?_ hmore
      intro a' b' hother
      simp only [hcopies a b a' b' hfirst hother]

end Copies

namespace Node

/-! ## Nodes without foreign data -/

mutual

/-- Whether there are no foreign data in a node. -/
def isNative : Node → Bool
  | rule _ nodes _ => isNativeAll nodes
  | block _ nodes _ => isNativeAll nodes
  | foreign _ => false
  | _ => true

/-- Whether there are no foreign data in a list of nodes. -/
def isNativeAll : List Node → Bool
  | [] => true
  | node :: more => isNative node && isNativeAll more

end

mutual

theorem isNative_of_plain : ∀ n : Node, (∀ m, Occurs m [n] → m.Plain) → n.isNative = true
  | declaration _, _ => rfl
  | rule _ nodes _, h => isNativeAll_of_plain nodes fun m hm => h m (.inside hm)
  | block _ nodes _, h => isNativeAll_of_plain nodes fun m hm => h m (.inside hm)
  | comment _ _, _ => rfl
  | other _ _ _, _ => rfl
  | foreign _, h => (h _ .here).elim

theorem isNativeAll_of_plain : ∀ nodes : List Node, (∀ m, Occurs m nodes → m.Plain) →
    isNativeAll nodes = true
  | [], _ => rfl
  | node :: more, h => by
    rw [isNativeAll, Bool.and_eq_true]
    exact ⟨isNative_of_plain node fun m hm => h m hm.of_singleton,
      isNativeAll_of_plain more fun m hm => h m (.later hm)⟩

end

/-- No text is read as foreign data. -/
theorem isNativeAll_of_ofText {source t : Text} {nodes : List Node}
    (h : Node.ofText source t = .ok nodes) : isNativeAll nodes = true :=
  isNativeAll_of_plain nodes fun _ hm => plain_of_ofText h hm

/-! ## Nodes without positions -/

mutual

/-- A node without the positions in it. -/
def unplaced : Node → Node
  | declaration d => declaration { d with source := none }
  | rule selectors nodes _ => rule selectors (unplacedAll nodes) none
  | block head nodes _ => block head (unplacedAll nodes) none
  | comment text _ => comment text none
  | other kind text _ => other kind text none
  | foreign value => foreign value

/-- A list of nodes without the positions in it. -/
def unplacedAll : List Node → List Node
  | [] => []
  | node :: more => unplaced node :: unplacedAll more

end

mutual

theorem isNative_unplaced : ∀ n : Node, n.unplaced.isNative = n.isNative
  | declaration _ => rfl
  | rule _ nodes _ => isNativeAll_unplacedAll nodes
  | block _ nodes _ => isNativeAll_unplacedAll nodes
  | comment _ _ => rfl
  | other _ _ _ => rfl
  | foreign _ => rfl

theorem isNativeAll_unplacedAll : ∀ nodes : List Node,
    isNativeAll (unplacedAll nodes) = isNativeAll nodes
  | [] => rfl
  | node :: more => by
    rw [unplacedAll, isNativeAll, isNative_unplaced node, isNativeAll_unplacedAll more, isNativeAll]

end

theorem isUndefined_of_isNative {n : Node} (h : n.isNative = true) : n.isUndefined = false := by
  cases n with
  | foreign _ => cases h
  | _ => rfl

mutual

/-- Without foreign data, nodes are the same if they are equal without their
    positions. -/
theorem agrees_iff_unplaced_eq : ∀ m n : Node, m.isNative = true →
    (m.agrees n = true ↔ m.unplaced = n.unplaced)
  | declaration a, n, _ => by
    cases n with
    | declaration b =>
      obtain ⟨prop, value, important, source⟩ := a
      obtain ⟨prop', value', important', source'⟩ := b
      simp [agrees, Declaration.agrees, unplaced, and_assoc]
    | _ => simp [agrees, unplaced]
  | rule selectors ms source, n, h => by
    -- nodes of different kinds are neither the same nor equal
    cases n with
    | rule selectors' ns source' =>
      have hnodes := agreesAll_iff_unplacedAll_eq ms ns h
      simp [agrees, unplaced, hnodes]
    | _ => simp [agrees, unplaced]
  | block head ms source, n, h => by
    cases n with
    | block head' ns source' =>
      have hnodes := agreesAll_iff_unplacedAll_eq ms ns h
      simp [agrees, unplaced, hnodes]
    | _ => simp [agrees, unplaced]
  | comment text source, n, _ => by cases n <;> simp [agrees, unplaced]
  | other kind text source, n, _ => by cases n <;> simp [agrees, unplaced]
  | foreign _, _, h => by cases h

theorem agreesAll_iff_unplacedAll_eq : ∀ ms ns : List Node, isNativeAll ms = true →
    (agreesAll ms ns = true ↔ unplacedAll ms = unplacedAll ns)
  | [], ns, _ => by cases ns <;> simp [agreesAll, unplacedAll]
  | m :: ms, ns, h => by
    rw [isNativeAll, Bool.and_eq_true] at h
    cases ns with
    | nil => simp [agreesAll, unplacedAll]
    | cons n ns =>
      -- a value that is no number would be the same as another one here, but
      -- there is none
      have hnode := agrees_iff_unplaced_eq m n h.1
      have hmore := agreesAll_iff_unplacedAll_eq ms ns h.2
      simp [agreesAll, unplacedAll, isUndefined_of_isNative h.1, hnode, hmore]

end

/-! ## Texts -/

mutual

/-- Positions are not written. -/
theorem css_unplaced : ∀ n : Node, n.unplaced.css = n.css
  | declaration _ => rfl
  | rule selectors nodes _ => by rw [unplaced, css, css, cssAll_unplacedAll nodes]
  | block head nodes _ => by rw [unplaced, css, css, cssAll_unplacedAll nodes]
  | comment _ _ => rfl
  | other _ _ _ => rfl
  | foreign _ => rfl

theorem cssAll_unplacedAll : ∀ nodes : List Node, cssAll (unplacedAll nodes) = cssAll nodes
  | [] => rfl
  | node :: more => by rw [unplacedAll, cssAll, css_unplaced node, cssAll_unplacedAll more, cssAll]

end

/-- What stands in front of a body does not depend on how the body comes
    about. -/
theorem body_cons_congr {ss ts : List Text} (h : body ss = body ts) (t : Text) :
    body (t :: ss) = body (t :: ts) := by
  by_cases ht : t = []
  · rw [ht, body_nil_cons, body_nil_cons, h]
  · by_cases hnil : body ts = []
    · rw [body_cons_last ht hnil, body_cons_last ht (h.trans hnil)]
    · have hss : body ss ≠ [] := by rwa [h]
      rw [body_cons ht hnil, body_cons ht hss, h]

mutual

/-- Nor are comments. -/
theorem css_withoutComments : ∀ n : Node, n.withoutComments.css = n.css
  | declaration _ => rfl
  | rule selectors nodes _ => by rw [withoutComments, css, css, body_withoutCommentsAll nodes]
  | block head nodes _ => by rw [withoutComments, css, css, body_withoutCommentsAll nodes]
  | comment _ _ => rfl
  | other _ _ _ => rfl
  | foreign _ => rfl

theorem body_withoutCommentsAll : ∀ nodes : List Node,
    body (cssAll (withoutCommentsAll nodes)) = body (cssAll nodes)
  | [] => rfl
  | node :: more => by
    have hmore := body_withoutCommentsAll more
    by_cases hcomment : node.isComment = true
    · rw [withoutCommentsAll, if_pos hcomment, cssAll, css_of_isComment hcomment, body_nil_cons,
        hmore]
    · rw [withoutCommentsAll, if_neg hcomment, cssAll, css_withoutComments node, cssAll]
      exact body_cons_congr hmore node.css

end

/-! ## Distinct nodes -/

/-- Of a list, each node that is not the same as one in front of it. -/
def distinctNodes (nodes : List Node) : List Node := nodes.eraseDupsBy agrees

end Node

end StyleSlots
