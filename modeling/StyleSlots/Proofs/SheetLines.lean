import StyleSlots.Proofs.GrowingSheets
import StyleSlots.Proofs.Node.Lines
import StyleSlots.Proofs.Selector.Normal
import StyleSlots.Proofs.StyleSheet

/-! # Style sheets line by line

    A style sheet whose texts are separated by line feeds is meant to be read
    line by line. What is authored over several lines is written as it is, so
    a line need not be a whole text.

    - **Rules**: a rule breaks where its selector, its property, its value or
      the head of a block around it does, or its class name, which has the
      line break of a sentinel in it.
    - **Carried nodes**: these break where one of the nodes in them does. It
      does not matter in which order their declarations are.
    - **Main statement**: `lines_styleSheet`, the lines of a style sheet are
      those of its texts, and they are the texts themselves if and only if
      nothing that is written breaks. -/

namespace StyleSlots

open Node Text

/-! ## Selectors and names -/

namespace Selector

variable {name s : Text}

/-- What is put in front of a selector is on its line. -/
theorem line_normalize_iff (h : IsTrimmed s) : '\n' ∉ normalize s ↔ '\n' ∉ s := by
  have hreference : '\n' ≠ selfReference := by decide
  by_cases hmem : selfReference ∈ s
  · rw [normalize_of_mem hmem, h.trim_eq]
  · rw [normalize_of_not_mem hmem, h.trim_eq, withReference]
    split
    · next hnil => simp [hnil, hreference]
    · split <;> simp [hreference]

/-- The name stands wherever there is a self-reference. -/
theorem line_scopeTo_iff (h : selfReference ∈ s) :
    '\n' ∉ scopeTo name s ↔ '\n' ∉ name ∧ '\n' ∉ s := by
  have hclass : '\n' ∈ '.' :: name ↔ '\n' ∈ name := by simp
  rw [← not_or, not_iff_not, scopeTo, List.mem_flatMap]
  constructor
  · rintro ⟨c, hc, hmem⟩
    split at hmem
    · exact .inl (hclass.1 hmem)
    · exact .inr (List.mem_singleton.1 hmem ▸ hc)
  · rintro (hname | hs)
    · exact ⟨selfReference, h, by rw [if_pos rfl]; exact hclass.2 hname⟩
    · exact ⟨'\n', hs, by rw [if_neg (by decide)]; exact List.mem_singleton_self _⟩

end Selector

/-- The hashes in a name are on the line of the sentinel. -/
theorem ClassName.line_encode_iff (scheme : Scheme) (context : List Text) (selector : Text)
    (d : Declaration) : '\n' ∉ encode scheme context selector d ↔ '\n' ∉ scheme.sentinel := by
  obtain ⟨tail, htail, -, hdigits⟩ := exists_tail scheme context selector d
  have hbreak : '\n' ∉ tail := fun hmem => absurd (hdigits _ hmem) (by decide)
  simp [htail, hbreak]

/-! ## Rules -/

theorem AtomicRule.line_css_iff (r : AtomicRule) : '\n' ∉ r.css ↔
    '\n' ∉ r.selector ∧ r.declaration.OneLine ∧ ∀ head ∈ r.context, head.OneLine := by
  unfold css
  induction r.context with
  | nil => simp [line_braces_iff, Declaration.line_css_iff]
  | cons head more ih =>
    rw [List.foldr_cons, line_braces_iff, ih, head.line_prelude_iff, List.forall_mem_cons]
    exact and_left_comm.trans (and_congr_right fun _ => and_left_comm)

namespace Placement

/-- Whether all that is authored for the rule of a placement is on one line. -/
structure OneLine (p : Placement) : Prop where
  selector    : '\n' ∉ p.selector
  declaration : p.declaration.OneLine
  context     : ∀ head ∈ p.context, head.OneLine

theorem line_css_rule_iff {p : Placement} (h : IsTrimmed p.selector) (scheme : Scheme) :
    '\n' ∉ (p.rule scheme).css ↔ '\n' ∉ scheme.sentinel ∧ p.OneLine := by
  have hnormal := Selector.isNormal_normalize p.selector
  have hselector : '\n' ∉ (p.rule scheme).selector ↔
      '\n' ∉ scheme.sentinel ∧ '\n' ∉ p.selector := by
    rw [← Selector.line_normalize_iff h, ← ClassName.line_encode_iff]
    exact Selector.line_scopeTo_iff hnormal.reference
  rw [AtomicRule.line_css_iff, hselector, and_assoc]
  refine and_congr_right fun _ => ?_
  exact ⟨fun ⟨hs, hd, hc⟩ => ⟨hs, hd, hc⟩, fun ⟨hs, hd, hc⟩ => ⟨hs, hd, hc⟩⟩

end Placement

/-! ## Carried nodes -/

theorem Cascade.oneLine_orderNode (n : Node) : (orderNode n).OneLine ↔ n.OneLine := by
  cases n <;> exact Iff.rfl

/-- Moving declarations breaks no line. -/
theorem Cascade.line_css_orderNode_iff (n : Node) : '\n' ∉ (orderNode n).css ↔ '\n' ∉ n.css := by
  rw [Node.line_css_iff, Node.line_css_iff]
  constructor
  · exact fun h m hm => (oneLine_orderNode m).1 (h _ (occurs_orderNode hm))
  · intro h m hm
    obtain ⟨before, hbefore, rfl⟩ := exists_of_occurs_orderNode hm
    exact (oneLine_orderNode before).2 (h before hbefore)

/-! ## Style sheets -/

/-- The lines of a style sheet are those of its texts, one text after the
    other. -/
theorem lines_styleSheet_eq (carried : List Node) (rules : List AtomicRule) :
    lines (styleSheet ['\n'] carried rules) = (renderings carried rules).toList.flatMap lines :=
  lines_join (nil_not_mem_renderings carried rules)

/-- They are the texts if no node and no rule that is written breaks. -/
theorem lines_styleSheet_eq_renderings_iff (carried : List Node) (rules : List AtomicRule) :
    lines (styleSheet ['\n'] carried rules) = (renderings carried rules).toList ↔
      (∀ n ∈ carried, '\n' ∉ n.css) ∧ ∀ r ∈ rules, '\n' ∉ r.css := by
  rw [lines_styleSheet_eq, flatMap_lines_eq_self_iff (nil_not_mem_renderings carried rules)]
  simp only [renderings, OrderedSet.toList_ofList, mem_distinct, List.mem_filter, List.mem_append,
    List.mem_map]
  constructor
  · intro h
    have hwritten : ∀ t : Text, '\n' ∈ t → (! t.isEmpty) = true := by
      intro t ht
      have hne : t ≠ [] := List.ne_nil_of_mem ht
      simpa using hne
    exact ⟨fun n hn hmem => h _ ⟨.inl ⟨n, hn, rfl⟩, hwritten _ hmem⟩ hmem,
      fun r hr hmem => h _ ⟨.inr ⟨r, hr, rfl⟩, hwritten _ hmem⟩ hmem⟩
  · rintro ⟨hcarried, hrules⟩ t ⟨⟨n, hn, rfl⟩ | ⟨r, hr, rfl⟩, -⟩
    · exact hcarried n hn
    · exact hrules r hr

namespace Compiler

variable {c : Compiler} {source t : Text} {nodes : List Node} {rules : List AtomicRule}

/-- The style sheet of a text that is compiled, with line feeds between its
    texts, has the lines of these texts, one text after the other. Every line
    is a whole text if and only if there is no line feed in what is authored
    for a rule or in a node that is carried along, at any depth, and none in
    the sentinel if there is a rule at all. -/
theorem lines_styleSheet (hread : Node.ofText source t = .ok nodes)
    (hok : (c.compile nodes).2.rules = .ok rules) :
    lines (styleSheet ['\n'] (c.compile nodes).1.carried rules) =
      (renderings (c.compile nodes).1.carried rules).toList.flatMap lines ∧
    (lines (styleSheet ['\n'] (c.compile nodes).1.carried rules) =
        (renderings (c.compile nodes).1.carried rules).toList ↔
      (∀ n ∈ nodes, n.isCarried c.scheme = true → ∀ m, Occurs m [n] → m.OneLine) ∧
      ∀ p ∈ c.placements nodes, '\n' ∉ c.scheme.sentinel ∧ p.OneLine) := by
  refine ⟨lines_styleSheet_eq _ _, ?_⟩
  rw [lines_styleSheet_eq_renderings_iff, carried_of_ok hok, rules_of_ok hok]
  simp only [List.forall_mem_map, List.mem_filter, and_imp]
  refine and_congr ?_ ?_
  · refine forall₂_congr fun n _ => forall_congr' fun _ => ?_
    rw [← Node.line_css_iff]
    unfold prepareNode
    split
    · exact Cascade.line_css_orderNode_iff n
    · exact Iff.rfl
  · refine forall₂_congr fun p hp => ?_
    exact Placement.line_css_rule_iff (Placement.plain_of_ofText hread hp).selector c.scheme

/-- Line feeds around the parts of a block and in front of a declaration. -/
def spacedText : Text := "@page\x7b\na:b\n\x7d\na:c".toList

/-- What it is read as. -/
def spacedTree : List Node :=
  [.block ⟨"page".toList, []⟩ [.declaration ⟨['a'], ['b'], false, some ⟨2, 1, []⟩⟩]
     (some ⟨1, 1, []⟩),
   .declaration ⟨['a'], ['c'], false, some ⟨4, 1, []⟩⟩]

theorem ofText_spacedText : Node.ofText [] spacedText = .ok spacedTree := by
  have hspells : Item.Spells
      [.block "page".toList [] [.gap '\n', .declaration ['a', ':', 'b', '\n']], .gap '\n',
        .declaration ['a', ':', 'c']] spacedText := by
    have hpage : IsAtHead "page".toList [] := by decide
    have hinner : IsRun ['a', ':', 'b', '\n'] := by decide
    have hrun : IsRun ['a', ':', 'c'] := by decide
    have hgap : isGap '\n' = true := rfl
    refine ⟨?_, rfl⟩
    simp only [Item.LegalAll, Item.Legal, Item.isOpen, hpage, hinner, hrun, hgap]
    simp
  exact Node.ofText_eq_ok_iff.2 ⟨_, hspells, by decide, rfl⟩

/-- None of these line feeds is written, so the block and the rule are a line
    each. -/
theorem lines_styleSheet_spaced :
    Node.ofText [] spacedText = .ok spacedTree ∧
      ∃ rule, (freshCompiler.compile spacedTree).2.rules = .ok [rule] ∧
        lines (styleSheet ['\n'] (freshCompiler.compile spacedTree).1.carried [rule]) =
          ["@page\x7ba:b\x7d".toList, rule.css] := by
  have hok : (freshCompiler.compile spacedTree).2.rules =
      .ok (freshCompiler.trace spacedTree).rules := compile_rules_eq_ok_iff.2 ⟨rfl, rfl⟩
  obtain ⟨-, hwhole⟩ := lines_styleSheet ofText_spacedText hok
  have hcarried : ∀ n ∈ spacedTree, n.isCarried freshCompiler.scheme = true →
      ∀ m, Occurs m [n] → m.OneLine := by
    simp [spacedTree, forall_occurs_cons, inside, OneLine, Declaration.OneLine, AtRule.OneLine]
  have hplaced : ∀ p ∈ freshCompiler.placements spacedTree,
      '\n' ∉ freshCompiler.scheme.sentinel ∧ p.OneLine := by
    have hplacements : freshCompiler.placements spacedTree =
        [.direct [] ⟨['a'], ['c'], false, some ⟨4, 1, []⟩⟩] := rfl
    rw [hplacements, List.forall_mem_singleton]
    exact ⟨by decide, List.not_mem_nil, ⟨by decide, by decide⟩, by simp [Placement.direct]⟩
  obtain ⟨rule, hrules, hstart⟩ : ∃ rule, (freshCompiler.trace spacedTree).rules = [rule] ∧
      rule.css.head? = some '.' := ⟨_, rfl, rfl⟩
  rw [hrules] at hok hwhole
  refine ⟨ofText_spacedText, rule, hok, ?_⟩
  rw [hwhole.2 ⟨hcarried, hplaced⟩, toList_renderings]
  refine distinct_of_nodup (List.nodup_cons.2 ⟨?_, List.nodup_singleton _⟩)
  -- the block and the rule start differently
  intro hmem
  rw [← List.mem_singleton.1 hmem] at hstart
  cases hstart

/-- A value over two lines. -/
def areasText : Text := "grid-template:\"a\"\n\"b\"".toList

/-- What it is read as. -/
def areasTree : List Node :=
  [.declaration ⟨"grid-template".toList, "\"a\"\n\"b\"".toList, false, some ⟨1, 1, []⟩⟩]

theorem ofText_areasText : Node.ofText [] areasText = .ok areasTree := by
  have hrun : IsRun areasText := by decide
  have hspells : Item.Spells [.declaration areasText] areasText := by
    refine ⟨?_, rfl⟩
    simp only [Item.LegalAll, Item.Legal, hrun]
    simp
  exact Node.ofText_eq_ok_iff.2 ⟨_, hspells, by decide, rfl⟩

/-- Not every line of a style sheet is a whole rule: the rule for this value
    breaks where the value does. -/
theorem rule_over_two_lines :
    Node.ofText [] areasText = .ok areasTree ∧
      ∃ rule, (freshCompiler.compile areasTree).2.rules = .ok [rule] ∧ '\n' ∈ rule.css ∧
        lines (styleSheet ['\n'] (freshCompiler.compile areasTree).1.carried [rule]) ≠
          (renderings (freshCompiler.compile areasTree).1.carried [rule]).toList := by
  have hok : (freshCompiler.compile areasTree).2.rules =
      .ok (freshCompiler.trace areasTree).rules := compile_rules_eq_ok_iff.2 ⟨rfl, rfl⟩
  obtain ⟨rule, hrules, hvalue⟩ : ∃ rule, (freshCompiler.trace areasTree).rules = [rule] ∧
      rule.declaration.value = "\"a\"\n\"b\"".toList := ⟨_, rfl, rfl⟩
  have hbreak : '\n' ∈ rule.css := by
    by_contra hline
    have hdeclaration := ((AtomicRule.line_css_iff rule).1 hline).2.1.2
    rw [hvalue] at hdeclaration
    exact hdeclaration (by decide)
  rw [hrules] at hok
  refine ⟨ofText_areasText, rule, hok, hbreak, ?_⟩
  rw [ne_eq, lines_styleSheet_eq_renderings_iff]
  exact fun h => h.2 rule (List.mem_singleton_self _) hbreak

end Compiler

end StyleSlots
