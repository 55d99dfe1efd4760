import StyleSlots.Proofs.Node.Sequences
import StyleSlots.Proofs.Selector.Concrete
import StyleSlots.Proofs.Trace.Misplaced
import StyleSlots.Proofs.Trace.Origins
import StyleSlots.StyleSheet

/-! # Style sheets are read back

    A style sheet is all that a page gets of a compilation. Whoever reads it
    finds the compilation in it and nothing else.

    - **Rules**: an atomic rule is written as the blocks of its context, one
      inside the other, around a rule with one selector and one declaration.
    - **Carried nodes**: what is carried along is written as it is on the
      walk, without its comments.
    - **Main statement**: `styleSheet_read_back`, a style sheet is read as
      the nodes that are carried along and the nests of the rules, in order,
      each of them once. -/

namespace StyleSlots

open Node Item

/-! ## Rules as nodes -/

/-- A node inside blocks with the given heads, the outermost one first. -/
def Node.within : List AtRule → Node → Node
  | [], n => n
  | head :: more, n => .block head [within more n] none

theorem Node.body_singleton (t : Text) : body [t] = t := by
  by_cases ht : t = []
  · rw [ht]
    rfl
  · exact body_cons_last ht rfl

/-- A node inside blocks has its text inside the braces of the blocks. -/
theorem Node.css_within (context : List AtRule) (n : Node) :
    (within context n).css = context.foldr (fun head inner => braces head.prelude inner) n.css := by
  induction context with
  | nil => rfl
  | cons head more ih =>
    rw [within, css, cssAll, cssAll, body_singleton, ih]
    rfl

/-- A node inside plain blocks has a closed text if it has one itself. -/
theorem Item.Closed.within {t : Text} {n : Node} (h : Closed t n) {context : List AtRule}
    (hcontext : ∀ head ∈ context, head.Plain) :
    Closed (context.foldr (fun head inner => braces head.prelude inner) t)
      (Node.within context n) where
  css_eq := by rw [css_within, h.css_eq]
  item := by
    induction context with
    | nil => exact h.item
    | cons head more ih =>
      obtain ⟨hhead, hmore⟩ := List.forall_mem_cons.1 hcontext
      obtain ⟨item, hitem, -⟩ := ih hmore
      exact ⟨_, express_block hhead hitem none, rfl⟩

namespace AtomicRule

/-- The rule as a node inside the blocks around it. -/
def nest (r : AtomicRule) : Node :=
  within r.context (.rule [r.selector] [.declaration r.declaration] none)

/-- The text of a rule is that of its nest, if the selector is a proper one. -/
theorem closed_nest {r : AtomicRule} (hselector : Selector.IsProper r.selector)
    (hne : r.selector ≠ []) (hdeclaration : r.declaration.Plain)
    (hcontext : ∀ head ∈ r.context, head.Plain) : Closed r.css r.nest := by
  have hrun : IsRun (Selector.joinList [r.selector]) := hselector.isRun hne
  have hinner : Closed (braces r.selector r.declaration.css)
      (.rule [r.selector] [.declaration r.declaration] none) := by
    refine ⟨?_, _, express_rule hrun (hselector.isList hne) (express_declaration hdeclaration) none,
      rfl⟩
    rw [Node.css, cssAll, cssAll, body_singleton]
    rfl
  exact hinner.within hcontext

/-- Nests are the same if the rules differ in their class names and in the
    positions of their declarations at most. -/
theorem agrees_nest_iff (r r' : AtomicRule) : r.nest.agrees r'.nest = true ↔
    r.context = r'.context ∧ r.selector = r'.selector ∧
      r.declaration.agrees r'.declaration = true := by
  have hwithin : ∀ context context' : List AtRule,
      (within context (.rule [r.selector] [.declaration r.declaration] none)).agrees
        (within context' (.rule [r'.selector] [.declaration r'.declaration] none)) = true ↔
      context = context' ∧ r.selector = r'.selector ∧
        r.declaration.agrees r'.declaration = true := by
    intro context
    induction context with
    | nil =>
      intro context'
      cases context' with
      | nil => simp [within, agrees, agreesAll, isUndefined]
      | cons head' more' => simp [within, agrees]
    | cons head more ih =>
      intro context'
      cases context' with
      | nil => simp [within, agrees]
      | cons head' more' =>
        have hundefined : ∀ context n, (within context (.rule [r.selector] n none)).isUndefined =
            false := by
          intro context n
          cases context <;> rfl
        simp [within, agrees, agreesAll, ih, hundefined, and_assoc]
  exact hwithin r.context r'.context

end AtomicRule

/-! ## Nodes that are carried along -/

/-- What is carried along has a closed text, and its node is what is left of
    it without comments. -/
theorem Node.closed_of_isCarried {scheme : Scheme} {n : Node} (hcarried : n.isCarried scheme = true)
    (h : ∀ m, Occurs m [n] → m.Plain ∧ m.Headed) : Closed n.css n.withoutComments where
  css_eq := css_withoutComments n
  item := by
    have hcomment : n.isComment = false := by cases n <;> first | rfl | cases hcarried
    have hclosed : isClosed n.css = true := by
      cases n with
      | block head inner source => exact isClosed_concat _ (.inl rfl)
      | other kind text source =>
        obtain ⟨⟨name, params, -, -, rfl⟩, -⟩ := h _ .here
        exact isClosed_concat _ (.inr rfl)
      | _ => cases hcarried
    obtain ⟨item, hitem, hopen⟩ := exists_item n hcomment h
    exact ⟨item, hitem, by rw [hopen, hclosed]; rfl⟩

/-- What stands in a node of a list stands in the list. -/
theorem Node.Occurs.of_mem_singleton {m n : Node} {nodes : List Node} (h : Occurs m [n])
    (hn : n ∈ nodes) : Occurs m nodes := by
  cases h with
  | here => exact .of_mem hn
  | later h => cases h
  | inside h => exact (Occurs.of_mem hn).trans h

namespace Cascade

/-- Every node of an ordered list comes from a node of the list. -/
theorem exists_orderNode_of_mem_order {n : Node} {nodes : List Node} (h : n ∈ order nodes) :
    ∃ before ∈ nodes, orderNode before = n := by
  cases hkind : n.isDeclaration with
  | false =>
    obtain ⟨before, hmem, -, heq⟩ := exists_of_mem_order h hkind
    exact ⟨before, hmem, heq⟩
  | true =>
    cases n with
    | declaration d => exact ⟨_, Placement.declaration_mem_order.1 h, rfl⟩
    | _ => cases hkind

/-- Where all nodes of a list come from nodes of another one, so do all nodes
    further inside. -/
theorem exists_of_occurs_of_forall {m : Node} {ns : List Node} (h : Occurs m ns) :
    ∀ {nodes : List Node}, (∀ n ∈ ns, ∃ before ∈ nodes, orderNode before = n) →
      ∃ before, Occurs before nodes ∧ orderNode before = m := by
  induction h with
  | here =>
    intro nodes hfrom
    obtain ⟨before, hmem, heq⟩ := hfrom _ (List.mem_cons_self ..)
    exact ⟨before, .of_mem hmem, heq⟩
  | later _ ih => exact fun hfrom => ih fun n hn => hfrom n (List.mem_cons_of_mem _ hn)
  | inside _ ih =>
    intro nodes hfrom
    obtain ⟨outer, hmem, rfl⟩ := hfrom _ (List.mem_cons_self ..)
    rw [inside_orderNode] at ih
    obtain ⟨before, hbefore, heq⟩ := ih fun n hn => exists_orderNode_of_mem_order hn
    exact ⟨before, (Occurs.of_mem hmem).trans hbefore, heq⟩

theorem exists_of_occurs_orderNode {m n : Node} (h : Occurs m [orderNode n]) :
    ∃ before, Occurs before [n] ∧ orderNode before = m := by
  refine exists_of_occurs_of_forall h ?_
  intro first hfirst
  exact ⟨n, List.mem_singleton_self n, (List.mem_singleton.1 hfirst).symm⟩

/-- Every node of a list is found in the ordered list. -/
theorem orderNode_mem_order {n : Node} {nodes : List Node} (h : n ∈ nodes) :
    orderNode n ∈ order nodes := by
  cases hkind : n.isDeclaration with
  | false =>
    have hmem := List.mem_map_of_mem (f := orderNode) (Node.mem_others.2 ⟨h, hkind⟩)
    rw [← others_order] at hmem
    exact (Node.mem_others.1 hmem).1
  | true =>
    cases n with
    | declaration d => exact Placement.declaration_mem_order.2 h
    | _ => cases hkind

/-- Where all nodes of a list are found ordered in another one, so are all
    nodes further inside. -/
theorem occurs_orderNode_of_forall {m : Node} {ns : List Node} (h : Occurs m ns) :
    ∀ {nodes : List Node}, (∀ n ∈ ns, orderNode n ∈ nodes) → Occurs (orderNode m) nodes := by
  induction h with
  | here => exact fun hto => .of_mem (hto _ (List.mem_cons_self ..))
  | later _ ih => exact fun hto => ih fun n hn => hto n (List.mem_cons_of_mem _ hn)
  | inside _ ih =>
    intro nodes hto
    refine (Occurs.of_mem (hto _ (List.mem_cons_self ..))).trans (ih fun n hn => ?_)
    rw [inside_orderNode]
    exact orderNode_mem_order hn

theorem occurs_orderNode {m n : Node} (h : Occurs m [n]) : Occurs (orderNode m) [orderNode n] := by
  refine occurs_orderNode_of_forall h ?_
  intro first hfirst
  rw [List.mem_singleton.1 hfirst]
  exact List.mem_singleton_self _

theorem plain_orderNode (n : Node) : (orderNode n).Plain ↔ n.Plain := by cases n <;> exact Iff.rfl

theorem headed_orderNode (n : Node) : (orderNode n).Headed ↔ n.Headed := by
  cases n <;> exact Iff.rfl

end Cascade

/-! ## What is written -/

/-- Whether every rule among nodes, at any depth, has a selector, and only
    selectors with which a rule can start. -/
def Node.Startable (nodes : List Node) : Prop :=
  ∀ selectors inner place, Occurs (.rule selectors inner place) nodes →
    selectors ≠ [] ∧ ∀ s ∈ selectors, s.head? ≠ some '@' ∧ s.head? ≠ some '/'

theorem Node.Startable.headed {nodes : List Node} (h : Startable nodes) {n : Node}
    (hn : Occurs n nodes) : n.Headed := by
  cases n with
  | rule selectors inner place =>
    obtain ⟨hne, hstart⟩ := h selectors inner place hn
    obtain ⟨first, more, rfl⟩ := List.exists_cons_of_ne_nil hne
    exact ⟨first, rfl, hstart first (List.mem_cons_self ..)⟩
  | _ => trivial

namespace Compiler

variable {c : Compiler} {source t : Text} {nodes : List Node} {rules : List AtomicRule}

/-- The selector of a placement is a proper one. -/
theorem isProper_of_mem_placements (hread : Node.ofText source t = .ok nodes)
    (hstart : Startable nodes) {p : Placement} (hp : p ∈ c.placements nodes) :
    Selector.IsProper p.selector := by
  rcases (origin_of_mem_placements hp).selector with hnil | ⟨selectors, inner, place, hrule, hmem⟩
  · rw [hnil]
    exact .nil
  · obtain ⟨hlist, hdelimiter⟩ := plain_of_ofText hread hrule
    obtain ⟨hat, hslash⟩ := (hstart _ _ _ hrule).2 _ hmem
    refine ⟨hlist.trimmed _ hmem, hlist.whole _ hmem, hdelimiter _ hmem, ?_⟩
    intro ch hch
    rw [Option.mem_def.1 hch] at hat hslash
    exact ⟨fun heq => hat (congrArg some heq), fun heq => hslash (congrArg some heq)⟩

theorem closed_rules (hread : Node.ofText source t = .ok nodes) (hstart : Startable nodes)
    (hok : (c.compile nodes).2.rules = .ok rules) :
    List.Forall₂ Closed (rules.map AtomicRule.css) (rules.map AtomicRule.nest) := by
  rw [List.forall₂_map_left_iff, List.forall₂_map_right_iff, List.forall₂_same]
  intro r hr
  rw [rules_of_ok hok] at hr
  obtain ⟨p, hp, rfl⟩ := List.mem_map.1 hr
  obtain ⟨hdeclaration, -, hcontext⟩ := Placement.plain_of_ofText hread hp
  have hclass := ClassName.isClass_encode c.scheme (p.context.map AtRule.label)
    (Selector.normalize p.selector) p.declaration
  have hproper := (isProper_of_mem_placements hread hstart hp).normalize.scopeTo hclass
  exact AtomicRule.closed_nest hproper (Selector.scopeTo_ne_nil _ (Selector.normalize_ne_nil _))
    hdeclaration hcontext

theorem closed_carried (hread : Node.ofText source t = .ok nodes) (hstart : Startable nodes)
    (hok : (c.compile nodes).2.rules = .ok rules) :
    List.Forall₂ Closed ((c.compile nodes).1.carried.map Node.css)
      ((c.compile nodes).1.carried.map Node.withoutComments) := by
  rw [List.forall₂_map_left_iff, List.forall₂_map_right_iff, List.forall₂_same, carried_of_ok hok]
  intro n hn
  obtain ⟨before, hbefore, rfl⟩ := List.mem_map.1 hn
  obtain ⟨hmem, hcarried⟩ := List.mem_filter.1 hbefore
  have hplain : ∀ m, Occurs m [before] → m.Plain ∧ m.Headed := by
    intro m hm
    have hin : Occurs m nodes := hm.of_mem_singleton hmem
    exact ⟨plain_of_ofText hread hin, hstart.headed hin⟩
  unfold prepareNode
  split
  · refine closed_of_isCarried ((Cascade.isCarried_orderNode c.scheme before).trans hcarried) ?_
    intro m hm
    obtain ⟨inner, hinner, rfl⟩ := Cascade.exists_of_occurs_orderNode hm
    rw [Cascade.plain_orderNode, Cascade.headed_orderNode]
    exact hplain inner hinner
  · exact closed_of_isCarried hcarried hplain

/-- No rule is the same as a node that is carried along: the outermost block
    around a rule is supported. -/
theorem agrees_nest_carried (hok : (c.compile nodes).2.rules = .ok rules) {r : AtomicRule}
    (hr : r ∈ rules) {n : Node} (hn : n ∈ (c.compile nodes).1.carried) :
    r.nest.agrees n.withoutComments = false := by
  rw [carried_of_ok hok, ← filter_isCarried_prepare] at hn
  have hcarried := (List.mem_filter.1 hn).2
  unfold AtomicRule.nest
  cases hblocks : r.context with
  | nil =>
    -- without a block around it a nest is a rule, and none is carried along
    cases n with
    | block _ _ _ => rfl
    | other _ _ _ => rfl
    | _ => cases hcarried
  | cons head more =>
    cases n with
    | block head' inner place =>
      have hhead : r.context.head? = some head := by rw [hblocks]; rfl
      have hne : head ≠ head' := by
        rintro rfl
        rw [isCarried, supported_of_mem_rules hok hr hhead] at hcarried
        cases hcarried
      simp [within, agrees, withoutComments, hne]
    | other _ _ _ => rfl
    | _ => cases hcarried

/-- The style sheet of a text that is compiled, whatever gaps are written
    between its parts, is read as the distinct nodes that are carried along,
    without their comments, and then the distinct nests of the rules. None of
    these is the same as another one. Nests are the same only if nothing but
    the class names and the positions of the declarations is different.

    Every rule in the text has to have a selector, and no selector may start
    in a way in which no rule can. -/
theorem styleSheet_read_back (hread : Node.ofText source t = .ok nodes)
    (hok : (c.compile nodes).2.rules = .ok rules) (hstart : Startable nodes) {separator : Text}
    (hgap : ∀ ch ∈ separator, isGap ch = true) (source' : Text) :
    (∃ read,
      Node.ofText source' (styleSheet separator (c.compile nodes).1.carried rules) = .ok read ∧
      agreesAll read (distinctNodes ((c.compile nodes).1.carried.map withoutComments) ++
        distinctNodes (rules.map AtomicRule.nest)) = true) ∧
    (distinctNodes ((c.compile nodes).1.carried.map withoutComments) ++
      distinctNodes (rules.map AtomicRule.nest)).Pairwise (fun m n => n.agrees m = false) ∧
    ∀ r r' : AtomicRule, r.nest.agrees r'.nest = true ↔
      r.context = r'.context ∧ r.selector = r'.selector ∧
        r.declaration.agrees r'.declaration = true := by
  have hclosed := List.rel_append (closed_carried hread hstart hok) (closed_rules hread hstart hok)
  -- no text is empty, so all of them are written
  have htexts : (renderings (c.compile nodes).1.carried rules).toList =
      distinct ((c.compile nodes).1.carried.map Node.css ++ rules.map AtomicRule.css) := by
    rw [renderings, OrderedSet.toList_ofList, List.filter_eq_self.2]
    intro text htext
    simpa using ne_nil_of_mem_closed hclosed text htext
  have hsplit : distinctNodes ((c.compile nodes).1.carried.map withoutComments) ++
      distinctNodes (rules.map AtomicRule.nest) =
      distinctNodes ((c.compile nodes).1.carried.map withoutComments ++
        rules.map AtomicRule.nest) := by
    refine (eraseDupsBy_append ?_).symm
    intro m hm n hn
    obtain ⟨carried, hcarried, rfl⟩ := List.mem_map.1 hm
    obtain ⟨r, hr, rfl⟩ := List.mem_map.1 hn
    exact agrees_nest_carried hok hr hcarried
  rw [hsplit]
  refine ⟨?_, pairwise_eraseDupsBy _ _, AtomicRule.agrees_nest_iff⟩
  obtain ⟨items, hitems⟩ := exists_items_join hgap (closed_distinct hclosed)
  unfold styleSheet
  rw [htexts]
  exact exists_ofText_of_express hitems source'

/-- A page with a comment in it, a rule inside a block with a quoted comma in
    its first selector, and a declaration that is written twice. -/
def pageText : Text :=
  "@page\x7b/*c*/a:b\x7d@media p\x7b[t='a,b'],&\x7ba:b!important\x7d\x7da:b;a:b".toList

/-- What it is read as. -/
def pageTree : List Node :=
  [.block ⟨"page".toList, []⟩
     [.comment ['c'] (some ⟨1, 7, []⟩),
      .declaration ⟨['a'], ['b'], false, some ⟨1, 12, []⟩⟩] (some ⟨1, 1, []⟩),
   .block ⟨"media".toList, ['p']⟩
     [.rule ["[t='a,b']".toList, ['&']]
       [.declaration ⟨['a'], ['b'], true, some ⟨1, 37, []⟩⟩] (some ⟨1, 25, []⟩)]
     (some ⟨1, 16, []⟩),
   .declaration ⟨['a'], ['b'], false, some ⟨1, 52, []⟩⟩,
   .declaration ⟨['a'], ['b'], false, some ⟨1, 56, []⟩⟩]

theorem ofText_pageText : Node.ofText [] pageText = .ok pageTree := by
  have hspells : Item.Spells
      [.block "page".toList [] [.comment ['c'], .declaration ['a', ':', 'b']],
        .block "media".toList [' ', 'p']
          [.rule "[t='a,b'],&".toList [.declaration "a:b!important".toList]],
        .declaration ['a', ':', 'b'], .semicolon, .declaration ['a', ':', 'b']] pageText := by
    have hpage : IsAtHead "page".toList [] := by decide
    have hmedia : IsAtHead "media".toList [' ', 'p'] := by decide
    have hrun : IsRun "[t='a,b'],&".toList := by decide
    have hplain : IsRun ['a', ':', 'b'] := by decide
    have himportant : IsRun "a:b!important".toList := by decide
    have hcomment : ¬ commentEnd <:+: ['c'] := by decide
    refine ⟨?_, rfl⟩
    simp only [Item.LegalAll, Item.Legal, Item.isOpen, hpage, hmedia, hrun, hplain, himportant,
      hcomment]
    simp
  exact Node.ofText_eq_ok_iff.2 ⟨_, hspells, by decide, rfl⟩

theorem startable_pageTree : Startable pageTree := by
  have hall : ∀ n, Occurs n pageTree → ∀ selectors inner place, n = .rule selectors inner place →
      selectors ≠ [] ∧ ∀ s ∈ selectors, s.head? ≠ some '@' ∧ s.head? ≠ some '/' := by
    simp [pageTree, forall_occurs_cons, inside]
  intro selectors inner place hrule
  exact hall _ hrule _ _ _ rfl

theorem styleSheet_read_back_page :
    Node.ofText [] pageText = .ok pageTree ∧ Startable pageTree ∧
      ∃ rules read, (freshCompiler.compile pageTree).2.rules = .ok rules ∧ rules.length = 4 ∧
        Node.ofText [] (styleSheet ['\n'] (freshCompiler.compile pageTree).1.carried rules) =
          .ok read ∧
        agreesAll read (.block ⟨"page".toList, []⟩
            [.declaration ⟨['a'], ['b'], false, some ⟨1, 12, []⟩⟩] (some ⟨1, 1, []⟩) ::
          distinctNodes (rules.map AtomicRule.nest)) = true := by
  have hok : (freshCompiler.compile pageTree).2.rules = .ok (freshCompiler.trace pageTree).rules :=
    compile_rules_eq_ok_iff.2 ⟨rfl, rfl⟩
  have hgap : ∀ ch ∈ ['\n'], isGap ch = true := List.forall_mem_singleton.2 rfl
  obtain ⟨⟨read, hread, hagrees⟩, -⟩ :=
    styleSheet_read_back ofText_pageText hok startable_pageTree hgap []
  exact ⟨ofText_pageText, startable_pageTree, _, read, hok, rfl, hread, hagrees⟩

end Compiler

end StyleSlots
