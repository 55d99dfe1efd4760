import StyleSlots.Proofs.ClassName.Generated
import StyleSlots.Proofs.CompiledNames
import StyleSlots.Proofs.Selector.Normal
import StyleSlots.Proofs.Trace.Origins

/-! # The scope of atomic rules

    An atomic rule is meant for the elements of its class, and what its
    author has quoted is none of its business.

    - **Names**: a generated class name has neither quotation marks nor
      self-references, so it cannot disturb either of them.
    - **Scoped**: the class stands in the selector of a rule, outside of
      quotes.
    - **Kept**: every quoted string of the authored selector stands in the
      selector of the rule as it was written.
    - **Main statement**: `Compiler.scoped_and_kept_iff`, a rule is scoped and
      keeps what was quoted unless there is a self-reference in it. -/

namespace StyleSlots

open Text Selector

/-! ## Names -/

/-- A generated name is plain. -/
theorem Placement.isPlain_name (scheme : Scheme) (p : Placement) : IsPlain (p.name scheme) :=
  ClassName.isPlain_encode _ _ _ _

/-! ## Rules -/

namespace AtomicRule

/-- Whether the class of a rule stands in its selector outside of quotes. -/
def Scoped (r : AtomicRule) : Prop := OccursUnquoted ('.' :: r.className) r.selector

/-- Whether all quoted strings of an authored selector stand in the selector
    of a rule as they are. -/
def Keeps (r : AtomicRule) (authored : Text) : Prop :=
  ∀ q ∈ quotedStrings authored, q <:+: r.selector

end AtomicRule

namespace Placement

variable {p : Placement}

theorem scoped_rule_iff (h : IsTrimmed p.selector) (scheme : Scheme) :
    (p.rule scheme).Scoped ↔ selfReference ∉ p.selector ∨
      OccursUnquoted [selfReference] p.selector ∨
      OccursUnquoted ('.' :: p.name scheme) p.selector :=
  occursUnquoted_scopeTo_normalize_iff (p.isPlain_name scheme) h

theorem quotedStrings_rule (h : IsTrimmed p.selector) (scheme : Scheme) :
    quotedStrings (p.rule scheme).selector =
      (quotedStrings p.selector).map (scopeTo (p.name scheme)) := by
  rw [← quotedStrings_normalize h]
  exact quotedStrings_scopeTo (p.isPlain_name scheme) _

theorem keeps_rule_iff (h : IsTrimmed p.selector) (scheme : Scheme) :
    (p.rule scheme).Keeps p.selector ↔ ∀ q ∈ quotedStrings p.selector, selfReference ∉ q :=
  forall₂_congr fun _ hq => infix_scopeTo_normalize_iff (p.isPlain_name scheme) h hq

/-- What is kept is also scoped. -/
theorem scoped_and_keeps_rule_iff (h : IsTrimmed p.selector) (scheme : Scheme) :
    (p.rule scheme).Scoped ∧ (p.rule scheme).Keeps p.selector ↔
      ∀ q ∈ quotedStrings p.selector, selfReference ∉ q := by
  rw [keeps_rule_iff h, and_iff_right_iff_imp]
  exact occursUnquoted_of_kept (p.isPlain_name scheme) h

end Placement

/-! ## Compilations -/

namespace Compiler

/-- A compilation of a text makes one rule for each placement, whose selector
    is the element itself or one of a rule in the text. The rule is scoped if
    the selector has no self-reference, or one outside of quotes. It is
    scoped and keeps what was quoted if and only if no quoted string has a
    self-reference. -/
theorem scoped_and_kept_iff {c : Compiler} {source t : Text} {nodes : List Node}
    {rules : List AtomicRule} (hread : Node.ofText source t = .ok nodes)
    (h : (c.compile nodes).2.rules = .ok rules) :
    rules = (c.placements nodes).map (Placement.rule c.scheme) ∧
    ∀ p ∈ c.placements nodes,
      (p.selector = [] ∨ ∃ selectors contents start,
        Node.Occurs (.rule selectors contents start) nodes ∧ p.selector ∈ selectors) ∧
      ((p.rule c.scheme).Scoped ↔ selfReference ∉ p.selector ∨
        OccursUnquoted [selfReference] p.selector ∨
        OccursUnquoted ('.' :: p.name c.scheme) p.selector) ∧
      quotedStrings (p.rule c.scheme).selector =
        (quotedStrings p.selector).map (scopeTo (p.name c.scheme)) ∧
      ((p.rule c.scheme).Scoped ∧ (p.rule c.scheme).Keeps p.selector ↔
        ∀ q ∈ quotedStrings p.selector, selfReference ∉ q) := by
  refine ⟨rules_of_ok h, ?_⟩
  intro p hp
  have htrimmed : IsTrimmed p.selector := (Placement.plain_of_ofText hread hp).selector
  exact ⟨(origin_of_mem_placements hp).selector, Placement.scoped_rule_iff htrimmed c.scheme,
    Placement.quotedStrings_rule htrimmed c.scheme,
    Placement.scoped_and_keeps_rule_iff htrimmed c.scheme⟩

/-- A selector with a self-reference in a quoted string, and one with a
    quoted comma behind a self-reference. -/
def titlesText : Text := "[title=\"a&b\"],&[title='c,d']\x7ba:b\x7d".toList

/-- What it is read as. -/
def titlesTree : List Node :=
  [.rule ["[title=\"a&b\"]".toList, "&[title='c,d']".toList]
    [.declaration ⟨['a'], ['b'], false, some ⟨1, 30, []⟩⟩] (some ⟨1, 1, []⟩)]

theorem ofText_titlesText : Node.ofText [] titlesText = .ok titlesTree := by
  have hrun : IsRun "[title=\"a&b\"],&[title='c,d']".toList := by decide
  have hinner : IsRun ['a', ':', 'b'] := by decide
  have hspells : Item.Spells [.rule "[title=\"a&b\"],&[title='c,d']".toList
      [.declaration ['a', ':', 'b']]] titlesText := by
    refine ⟨?_, rfl⟩
    simp only [Item.LegalAll, Item.Legal, hrun, hinner]
    simp
  exact Node.ofText_eq_ok_iff.2 ⟨_, hspells, by decide, rfl⟩

theorem compile_titlesTree : (freshCompiler.compile titlesTree).2.rules =
    .ok (freshCompiler.trace titlesTree).rules := compile_rules_eq_ok_iff.2 ⟨rfl, rfl⟩

theorem scoped_and_kept_iff_titles :
    Node.ofText [] titlesText = .ok titlesTree ∧
      ∃ first second, (freshCompiler.compile titlesTree).2.rules = .ok [first, second] ∧
        ¬ (first.Scoped ∧ first.Keeps "[title=\"a&b\"]".toList) ∧
        second.Scoped ∧ second.Keeps "&[title='c,d']".toList := by
  obtain ⟨hrules, hall⟩ := scoped_and_kept_iff ofText_titlesText compile_titlesTree
  have hplacements : freshCompiler.placements titlesTree =
      [⟨[], "[title=\"a&b\"]".toList, true, ⟨['a'], ['b'], false, some ⟨1, 30, []⟩⟩⟩,
       ⟨[], "&[title='c,d']".toList, true, ⟨['a'], ['b'], false, some ⟨1, 30, []⟩⟩⟩] := rfl
  rw [hplacements] at hrules hall
  obtain ⟨-, -, -, hfirst⟩ := hall _ (List.mem_cons_self ..)
  obtain ⟨-, -, -, hsecond⟩ := hall _ (List.mem_cons_of_mem _ (List.mem_cons_self ..))
  refine ⟨ofText_titlesText, _, _, by rw [compile_titlesTree, hrules]; rfl, ?_,
    hsecond.2 (by decide)⟩
  rw [hfirst]
  decide

/-- The first of these rules leaks: with `x` for its class it styles all
    elements with the title `a.xb`, and none with the title `a&b`. -/
theorem leaks_from_titles :
    Node.ofText [] titlesText = .ok titlesTree ∧
      ∃ leaking more, (freshCompiler.compile titlesTree).2.rules = .ok (leaking :: more) ∧
        ¬ leaking.Scoped ∧ ¬ leaking.Keeps "[title=\"a&b\"]".toList ∧
        leaking.selector = "[title=\"a.".toList ++ leaking.className ++ "b\"]".toList := by
  have hrules := rules_of_ok compile_titlesTree
  obtain ⟨p, more, hplacements, hselector⟩ : ∃ p more,
      freshCompiler.placements titlesTree = p :: more ∧
        p.selector = "[title=\"a&b\"]".toList := ⟨_, _, rfl, rfl⟩
  have hp : p ∈ freshCompiler.placements titlesTree := by simp [hplacements]
  have htrimmed : IsTrimmed p.selector :=
    (Placement.plain_of_ofText ofText_titlesText hp).selector
  refine ⟨ofText_titlesText, p.rule freshCompiler.scheme, _,
    by rw [compile_titlesTree, hrules, hplacements, List.map_cons], ?_, ?_, ?_⟩
  · have hsegments : segments none "[title=\"a&b\"]".toList =
        [⟨false, "[title=".toList⟩, ⟨true, "\"a&b\"".toList⟩, ⟨false, [']']⟩] := rfl
    rw [Placement.scoped_rule_iff htrimmed, hselector]
    rintro (hnone | hoccurs | hoccurs)
    · exact hnone (by decide)
    · rw [OccursUnquoted, hsegments] at hoccurs
      simp [selfReference, List.singleton_infix_iff] at hoccurs
    · -- there is no dot in the selector, so the class is not there either
      exact absurd (hoccurs.subset (List.mem_cons_self ..)) (by decide)
  · rw [← hselector, Placement.keeps_rule_iff htrimmed, hselector]
    decide
  · have hscope : ∀ name : Text, scopeTo name (normalize "[title=\"a&b\"]".toList) =
        "[title=\"a.".toList ++ name ++ "b\"]".toList := fun _ => rfl
    rw [← hscope, ← hselector]
    rfl

end Compiler

end StyleSlots
