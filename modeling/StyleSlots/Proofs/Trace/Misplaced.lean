import StyleSlots.Proofs.Trace.Carried

/-! # Supported blocks

    Whether an at-rule is supported is asked of top-level blocks only.

    - **Context**: the outermost block around a rule is supported, those
      further inside need not be.
    - **Misplaced**: what would be carried along at the top level, but
      stands inside supported blocks. The declarations of such a block are
      compiled with the others, and such a statement is left out.
    - **Main statement**: `supported_iff_not_misplaced`, a tree is compiled
      as it should be, with supported blocks in all contexts and everything
      else carried along, if and only if nothing in it is misplaced. -/

namespace StyleSlots

/-- Whether a node is a block whose name is supported. -/
def Node.isSupported (scheme : Scheme) : Node → Bool
  | block head _ _ => scheme.supported.contains head.name
  | _ => false

theorem Node.not_isCarried_of_isSupported {scheme : Scheme} {node : Node}
    (h : node.isSupported scheme = true) : node.isCarried scheme = false := by
  cases node with
  | block head inner source => rw [isCarried, Bool.not_eq_false']; exact h
  | _ => cases h

theorem Node.isSupported_of_isBlock {scheme : Scheme} {node : Node} (hblock : node.isBlock = true)
    (h : node.isCarried scheme = false) : node.isSupported scheme = true := by
  cases node with
  | block head inner source => rw [isCarried, Bool.not_eq_false'] at h; exact h
  | _ => cases hblock

theorem isBlock_of_opensScope {scheme : Scheme} {around : List Node}
    (h : opensScope scheme around = true) : ∀ node ∈ around, node.isBlock = true := by
  rw [opensScope, Bool.and_eq_true, List.all_eq_true] at h
  exact h.1

/-- A top-level node that opens a scope is a supported block. -/
theorem isSupported_of_opensScope {scheme : Scheme} {node : Node}
    (h : opensScope scheme [node] = true) : node.isSupported scheme = true := by
  have hblock := isBlock_of_opensScope h node (List.mem_singleton_self _)
  cases node with
  | block head inner source =>
    rw [opensScope, Bool.and_eq_true] at h
    exact h.2
  | _ => cases hblock

/-! ## Places of an ordered tree -/

namespace Cascade

variable {nodes nodes' : List Node} {node node' : Node}

theorem InPlaceOf.isSupported (h : InPlaceOf node node') (scheme : Scheme) :
    node.isSupported scheme = node'.isSupported scheme := by
  cases h <;> rfl

theorem InPlaceOf.isCarried (h : InPlaceOf node node') (scheme : Scheme) :
    node.isCarried scheme = node'.isCarried scheme := by
  cases h <;> rfl

/-- What is inside a node is reordered with it. -/
theorem InPlaceOf.reordered_inside (h : InPlaceOf node node') :
    Reordered node.inside node'.inside := by
  cases h with
  | rule selectors source inside => exact inside
  | block head source inside => exact inside
  | _ => exact .intro .nil (List.Perm.refl _) fun _ _ _ _ _ ha => by cases ha

/-- Every node of a reordered list takes the place of one of the list. -/
theorem Reordered.exists_getElem? (h : Reordered nodes nodes') {i : Nat}
    (hi : nodes'[i]? = some node') : ∃ node, nodes[i]? = some node ∧ InPlaceOf node node' := by
  obtain ⟨hplaces, -, -⟩ := h
  obtain ⟨hlength, hget⟩ := List.forall₂_iff_get.1 hplaces
  obtain ⟨hlt', rfl⟩ := List.getElem?_eq_some_iff.1 hi
  have hlt : i < nodes.length := by omega
  exact ⟨nodes[i], List.getElem?_eq_getElem hlt, hget i hlt hlt'⟩

/-- So does every node further inside, on the same way. -/
theorem Reordered.exists_place (h : Reordered nodes nodes') {p' : Place} (hp : p'.In nodes') :
    ∃ p : Place, p.In nodes ∧ p.path = p'.path ∧
      List.Forall₂ InPlaceOf p.around p'.around ∧ InPlaceOf p.node p'.node := by
  induction hp generalizing nodes with
  | @here nodes' i node' hi =>
    obtain ⟨node, hnode, hplace⟩ := h.exists_getElem? hi
    exact ⟨.here i node, .here hnode, rfl, .nil, hplace⟩
  | @inside nodes' i outer' p' hi _ ih =>
    obtain ⟨outer, houter, hplace⟩ := h.exists_getElem? hi
    obtain ⟨p, hp, hpath, haround, hnode⟩ := ih hplace.reordered_inside
    refine ⟨p.below [i] [outer], .inside houter hp, ?_, .cons hplace haround, hnode⟩
    show [i] ++ p.path = [i] ++ p'.path
    rw [hpath]

theorem map_isSupported_of_forall₂ (scheme : Scheme) (h : List.Forall₂ InPlaceOf nodes nodes') :
    nodes.map (Node.isSupported scheme) = nodes'.map (Node.isSupported scheme) := by
  induction h with
  | nil => rfl
  | cons hnode _ ih => rw [List.map_cons, List.map_cons, hnode.isSupported scheme, ih]

end Cascade

namespace Place

variable {scheme : Scheme} {nodes : List Node} {p : Place}

/-! ## On the way to a rule -/

/-- All blocks on the way to a declaration that is made into rules belong to
    one scope. -/
theorem opensScope_of_made (h : p.made scheme = true) {before after : List Node} {outer : Node}
    (haround : p.around = before ++ outer :: after) (houter : outer.isBlock = true) :
    opensScope scheme (before ++ [outer]) = true := by
  have hsplit : p.around = (before ++ [outer]) ++ after := by simp [haround]
  rw [made, Bool.and_eq_true, Bool.or_eq_true, inScope, inRule] at h
  rcases h.2 with hscope | hrule
  · rw [hsplit] at hscope
    exact opensScope_of_append hscope
  · obtain ⟨front, rule, hfront, hisRule, hscope⟩ := exists_of_opensRule hrule
    rcases List.eq_nil_or_concat after with rfl | ⟨after, last, rfl⟩
    · -- `outer` is not the rule at the end
      have hlast := (List.append_inj' (haround.symm.trans hfront) rfl).2
      rw [(List.cons.inj hlast).1, Node.isBlock_of_isRule hisRule] at houter
      cases houter
    · have hsame : before ++ [outer] ++ after = front := by
        rw [List.concat_eq_append, ← List.append_assoc, hfront] at hsplit
        exact (List.append_inj' hsplit rfl).1.symm
      rw [← hsame] at hscope
      exact opensScope_of_append hscope

/-- All rules of a place have the blocks around it as their context. -/
theorem context_of_mem_rules {r : AtomicRule} (h : r ∈ p.rules scheme) : r.context = p.context := by
  rw [rules] at h
  split at h
  · obtain ⟨normal, -, rfl⟩ := List.mem_map.1 h
    rfl
  · cases h

/-- The outermost block of a context is supported. -/
theorem supported_of_head?_context (h : p.made scheme = true) {head : AtRule}
    (hhead : p.context.head? = some head) : scheme.supported.contains head.name = true := by
  rw [context, List.head?_filterMap, List.findSome?_eq_some_iff] at hhead
  obtain ⟨before, outer, after, haround, houter, hbefore⟩ := hhead
  cases outer with
  | block outerHead inner source =>
    obtain rfl : outerHead = head := Option.some.inj houter
    have hopens := opensScope_of_made h haround rfl
    cases before with
    | nil => exact isSupported_of_opensScope hopens
    | cons first more =>
      -- then the first node is a block with a head of its own
      have hnone := hbefore first (List.mem_cons_self ..)
      have hblock := isBlock_of_opensScope hopens first (List.mem_cons_self ..)
      cases first with
      | block firstHead inner source => simp [Node.head?] at hnone
      | _ => cases hblock
  | _ => cases houter

/-! ## Misplaced nodes -/

/-- Whether a node stands inside supported blocks that would be carried along
    at the top level: a block that is not supported, or a statement that has
    a text. -/
structure Misplaced (scheme : Scheme) (p : Place) : Prop where
  inside    : p.around ≠ []
  supported : ∀ outer ∈ p.around, outer.isSupported scheme = true
  kind      : p.node.isCarried scheme = true

/-- Whether a node goes into the style sheet, on its own or inside another
    one. -/
def Shipped (scheme : Scheme) (nodes : List Node) (p : Place) : Prop :=
  ∃ q : Place, q.In nodes ∧ q.carried scheme = true ∧ (p = q ∨ p.Inside q)

/-- A misplaced node does not go into the style sheet. -/
theorem Misplaced.not_shipped (h : p.Misplaced scheme) : ¬ p.Shipped scheme nodes := by
  rintro ⟨q, -, hcarried, hplace⟩
  rw [carried, Bool.and_eq_true, atTop, List.isEmpty_iff] at hcarried
  obtain ⟨htop, hkind⟩ := hcarried
  rcases hplace with rfl | hin
  · exact h.inside htop
  · have hmem : q.node ∈ p.around := (prefix_of_inside hin).subset (by simp)
    rw [Node.not_isCarried_of_isSupported (h.supported q.node hmem)] at hkind
    cases hkind

/-- Around a rule whose context has a block that is not supported there is a
    misplaced one: the outermost of these blocks. -/
theorem exists_misplaced_of_context (hp : p.In nodes) (h : p.made scheme = true) {head : AtRule}
    (hhead : head ∈ p.context) (hnot : scheme.supported.contains head.name = false) :
    ∃ q : Place, q.In nodes ∧ q.Misplaced scheme := by
  obtain ⟨node, hnode, hhead⟩ := List.mem_filterMap.1 hhead
  have hunsupported : (node.isBlock && node.isCarried scheme) = true := by
    cases node with
    | block nodeHead inner source =>
      obtain rfl : nodeHead = head := Option.some.inj hhead
      rw [Node.isBlock, Node.isCarried, hnot]
      rfl
    | _ => cases hhead
  have hfind : (p.around.find? fun outer => outer.isBlock && outer.isCarried scheme).isSome :=
    List.find?_isSome.2 ⟨node, hnode, hunsupported⟩
  obtain ⟨outer, houter⟩ := Option.isSome_iff_exists.1 hfind
  obtain ⟨hkind, before, after, haround, hbefore⟩ := List.find?_eq_some_iff_append.1 houter
  rw [Bool.and_eq_true] at hkind
  have hopens := opensScope_of_made h haround hkind.1
  obtain ⟨q, hq, hqaround, hqnode, -⟩ := exists_of_around hp haround
  refine ⟨q, hq, ?_, ?_, by rw [hqnode]; exact hkind.2⟩
  · rw [hqaround]
    rintro rfl
    -- a top-level block that is not supported opens no scope
    have hnotCarried := Node.not_isCarried_of_isSupported (isSupported_of_opensScope hopens)
    rw [hkind.2] at hnotCarried
    cases hnotCarried
  · rw [hqaround]
    intro first hfirst
    have hblock := isBlock_of_opensScope hopens first (List.mem_append_left _ hfirst)
    refine Node.isSupported_of_isBlock hblock ?_
    simpa [hblock] using hbefore first hfirst

end Place

namespace Compiler

variable {c : Compiler} {nodes : List Node}

/-- Ordering a tree misplaces nothing. -/
theorem exists_misplaced_of_prepare {p' : Place} (hp : p'.In (c.prepare nodes))
    (h : p'.Misplaced c.scheme) : ∃ p : Place, p.In nodes ∧ p.Misplaced c.scheme := by
  by_cases hsort : c.shorthandFirst = true
  · rw [prepare, if_pos hsort] at hp
    have hreordered : Cascade.Reordered nodes (Cascade.order nodes) :=
      .of_each (Cascade.forall₂_orderEach nodes)
    obtain ⟨p, hp, -, haround, hnode⟩ := hreordered.exists_place hp
    have hmap := Cascade.map_isSupported_of_forall₂ c.scheme haround
    refine ⟨p, hp, ?_, ?_, (hnode.isCarried c.scheme).trans h.kind⟩
    · intro hnil
      rw [hnil, List.forall₂_nil_left_iff] at haround
      exact h.inside haround
    · intro outer houter
      have hmem : outer.isSupported c.scheme ∈ p'.around.map (Node.isSupported c.scheme) := by
        rw [← hmap]
        exact List.mem_map_of_mem houter
      obtain ⟨outer', houter', hsame⟩ := List.mem_map.1 hmem
      rw [← hsame]
      exact h.supported outer' houter'
  · rw [prepare, if_neg hsort] at hp
    exact ⟨p', hp, h⟩

/-- A rule has the context of the place that it is made for. -/
theorem exists_made_of_mem_rules {rules : List AtomicRule}
    (h : (c.compile nodes).2.rules = .ok rules) {r : AtomicRule} (hr : r ∈ rules) :
    ∃ p : Place, p.In (c.prepare nodes) ∧ p.made c.scheme = true ∧ r.context = p.context := by
  rw [rules_eq_made h] at hr
  obtain ⟨p, hp, hmem⟩ := List.mem_flatMap.1 hr
  obtain ⟨hin, hmade⟩ := List.mem_filter.1 hp
  exact ⟨p, mem_places_iff.1 hin, hmade, Place.context_of_mem_rules hmem⟩

/-- The outermost block around a rule is supported. -/
theorem supported_of_mem_rules {rules : List AtomicRule}
    (h : (c.compile nodes).2.rules = .ok rules) {r : AtomicRule} (hr : r ∈ rules) {head : AtRule}
    (hhead : r.context.head? = some head) : c.scheme.supported.contains head.name = true := by
  obtain ⟨p, -, hmade, hsame⟩ := exists_made_of_mem_rules h hr
  rw [hsame] at hhead
  exact Place.supported_of_head?_context hmade hhead

/-- Of a tree that is compiled, the outermost block of every context is
    supported; but misplaced nodes are not carried along. So all blocks of
    all contexts are supported and nothing that is not compiled is lost if
    and only if nothing in the tree is misplaced. -/
theorem supported_iff_not_misplaced {rules : List AtomicRule}
    (h : (c.compile nodes).2.rules = .ok rules) :
    (c.compile nodes).1.carried =
      (((places nodes).filter (Place.carried c.scheme)).map Place.node).map c.prepareNode ∧
    (∀ r ∈ rules, ∀ head, r.context.head? = some head →
      c.scheme.supported.contains head.name = true) ∧
    (∀ p : Place, p.In nodes → p.Misplaced c.scheme → ¬ p.Shipped c.scheme nodes) ∧
    ((∀ r ∈ rules, ∀ head ∈ r.context, c.scheme.supported.contains head.name = true) ∧
        (∀ p : Place, p.In nodes → p.Misplaced c.scheme → p.Shipped c.scheme nodes) ↔
      ∀ p : Place, p.In nodes → ¬ p.Misplaced c.scheme) := by
  refine ⟨?_, ?_, fun p _ hp => hp.not_shipped, ?_, ?_⟩
  · rw [carried_of_ok h, Place.map_node_filter_carried]
  · exact fun r hr head hhead => supported_of_mem_rules h hr hhead
  · rintro ⟨-, hshipped⟩ p hin hp
    exact hp.not_shipped (hshipped p hin hp)
  · intro hnone
    refine ⟨?_, fun p hin hp => absurd hp (hnone p hin)⟩
    intro r hr head hhead
    by_contra hnot
    rw [Bool.not_eq_true] at hnot
    obtain ⟨p, hin, hmade, hsame⟩ := exists_made_of_mem_rules h hr
    rw [hsame] at hhead
    obtain ⟨q, hq, hmisplaced⟩ := Place.exists_misplaced_of_context hin hmade hhead hnot
    obtain ⟨q', hq', hmisplaced'⟩ := exists_misplaced_of_prepare hq hmisplaced
    exact hnone q' hq' hmisplaced'

/-- A font, which is not compiled. -/
def fontBlock : Node :=
  .block ⟨"font-face".toList, []⟩
    [.declaration ⟨"src".toList, "x".toList, false, none⟩] none

/-- A block that is compiled. -/
def gapBlock (nodes : List Node) : Node :=
  .block ⟨"supports".toList, "(gap: 0)".toList⟩ nodes none

/-- A font at the top level, and one behind a rule two blocks further in. -/
def fontsTree : List Node :=
  [fontBlock,
   .block ⟨"media".toList, "print".toList⟩
     [gapBlock
       [.rule ["a".toList] [.declaration ⟨"gap".toList, "0".toList, false, none⟩] none,
        fontBlock]] none]

/-- Only the font at the top level is spared. -/
theorem supported_iff_not_misplaced_fonts :
    ∃ rules, (freshCompiler.compile fontsTree).2.rules = .ok rules ∧ rules.length = 2 ∧
      (freshCompiler.compile fontsTree).1.carried.map Node.css =
        ["@font-face\x7bsrc:x\x7d".toList] ∧
      (∀ r ∈ rules, ∀ head, r.context.head? = some head →
        Scheme.default.supported.contains head.name = true) ∧
      ¬ ((∀ r ∈ rules, ∀ head ∈ r.context, Scheme.default.supported.contains head.name = true) ∧
        ∀ p : Place, p.In fontsTree → p.Misplaced .default → p.Shipped .default fontsTree) := by
  have hok : (freshCompiler.compile fontsTree).2.rules =
      .ok (freshCompiler.trace fontsTree).rules := compile_rules_eq_ok_iff.2 ⟨rfl, rfl⟩
  obtain ⟨hcarried, houtermost, -, hiff⟩ := supported_iff_not_misplaced hok
  refine ⟨_, hok, rfl, ?_, houtermost, ?_⟩
  · rw [hcarried]
    decide +kernel
  · intro hsupported
    refine hiff.1 hsupported (.below [1] _ (.below [0] _ (.here 1 fontBlock)))
      (.inside rfl (.inside rfl (.here rfl))) ⟨by simp, ?_, rfl⟩
    intro outer houter
    rcases List.mem_cons.1 houter with rfl | houter
    · rfl
    · obtain rfl := List.mem_singleton.1 houter
      rfl

/-- A statement that has a text. -/
def importStatement : Node := .other "@import".toList "@import y;".toList none

/-- A font and a statement, each in a block that is compiled. -/
def misplacedTree : List Node := [gapBlock [fontBlock], gapBlock [importStatement]]

/-- The font is compiled like a block that is supported, and the statement is
    lost without a warning. -/
theorem misplaced_made_and_lost :
    ∃ rules, (freshCompiler.compile misplacedTree).2.rules = .ok rules ∧
      (∃ r ∈ rules, ∃ head ∈ r.context,
        Scheme.default.supported.contains head.name = false) ∧
      (freshCompiler.compile misplacedTree).1.carried = [] ∧
      (freshCompiler.compile misplacedTree).2.log.filter LogEntry.isWarning = [] ∧
      ∃ p : Place, p.In misplacedTree ∧ p.node = importStatement ∧ p.Misplaced .default ∧
        ¬ p.Shipped .default misplacedTree := by
  have hmisplaced : Place.Misplaced .default
      (.below [1] [gapBlock [importStatement]] (.here 0 importStatement)) := by
    refine ⟨by simp, ?_, rfl⟩
    intro outer houter
    obtain rfl := List.mem_singleton.1 houter
    rfl
  refine ⟨_, compile_rules_eq_ok_iff.2 ⟨rfl, rfl⟩, ?_, rfl, by decide +kernel,
    _, .inside rfl (.here rfl), rfl, hmisplaced, hmisplaced.not_shipped⟩
  exact ⟨_, List.mem_cons_self .., ⟨"font-face".toList, []⟩,
    List.mem_cons_of_mem _ (List.mem_cons_self ..), by decide⟩

end Compiler

end StyleSlots
