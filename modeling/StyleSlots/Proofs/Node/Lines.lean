import StyleSlots.Node.Printer
import StyleSlots.Proofs.Node.Occurrences
import StyleSlots.Proofs.Text.Lines

/-! # Line breaks in style text

    The text of a node has no line breaks of its own. If one is in it, it has
    been written in a property, a value, a selector, the head of a block or a
    statement.

    - **One line**: what a node itself contributes to its text has no line
      feed in it.
    - **Main statement**: `line_css_iff`, the text of a node is one line if
      and only if each node in it contributes to one line. -/

namespace StyleSlots

/-! ## Parts of nodes -/

/-- Whether the property and the value of a declaration are on one line. -/
def Declaration.OneLine (d : Declaration) : Prop := '\n' ∉ d.prop ∧ '\n' ∉ d.value

/-- Whether the head of a block is on one line. -/
def AtRule.OneLine (head : AtRule) : Prop := '\n' ∉ head.name ∧ '\n' ∉ head.params

/-- Whether what a node contributes to its text, apart from the nodes inside
    of it, is on one line. -/
def Node.OneLine : Node → Prop
  | declaration d => d.OneLine
  | rule selectors _ _ => ∀ s ∈ selectors, '\n' ∉ s
  | block head _ _ => head.OneLine
  | comment _ _ => True
  | other _ text _ => '\n' ∉ text
  | foreign _ => True

theorem Declaration.line_css_iff (d : Declaration) : '\n' ∉ d.css ↔ d.OneLine := by
  have hcolon : '\n' ≠ ':' := by decide
  have hmark : '\n' ∉ if d.important then " !important".toList else [] := by
    split <;> decide
  rw [css, List.mem_append, List.mem_append, List.mem_cons, OneLine]
  simp only [hmark, hcolon, or_false, false_or, not_or]

theorem AtRule.line_prelude_iff (head : AtRule) : '\n' ∉ head.prelude ↔ head.OneLine := by
  unfold prelude OneLine
  split
  · next hnil => simp [List.isEmpty_iff.1 hnil]
  · simp

namespace Node

theorem line_braces_iff (head inner : Text) :
    '\n' ∉ braces head inner ↔ '\n' ∉ head ∧ '\n' ∉ inner := by
  simp [braces]

theorem line_abut_iff (texts : List Text) : '\n' ∉ abut texts ↔ ∀ t ∈ texts, '\n' ∉ t := by
  induction texts with
  | nil => simp [abut]
  | cons t texts ih =>
    cases texts with
    | nil => simp [abut]
    | cons next more =>
      have hsemicolon : '\n' ∉ if isClosed t then [] else [';'] := by
        split <;> decide
      simp [abut, hsemicolon, ih]

/-- Empty texts, which leave no trace in a body, have no line feed either. -/
theorem line_body_iff (texts : List Text) : '\n' ∉ body texts ↔ ∀ t ∈ texts, '\n' ∉ t := by
  rw [body, line_abut_iff]
  constructor
  · intro h t ht hmem
    have hne : t ≠ [] := List.ne_nil_of_mem hmem
    exact h t (List.mem_filter.2 ⟨ht, by simpa using hne⟩) hmem
  · exact fun h t ht => h t (List.mem_filter.1 ht).1

/-! ## Texts of nodes -/

theorem forall_occurs_singleton {P : Node → Prop} {n : Node} :
    (∀ m, Occurs m [n] → P m) ↔ P n ∧ ∀ m, Occurs m n.inside → P m := by
  simp [forall_occurs_cons]

mutual

theorem line_css_iff : ∀ n : Node, '\n' ∉ n.css ↔ ∀ m, Occurs m [n] → m.OneLine
  | declaration d => by
    rw [forall_occurs_singleton, css, d.line_css_iff]
    simp [OneLine, inside]
  | rule selectors nodes _ => by
    have hcomma : '\n' ∉ ", ".toList := by decide
    rw [forall_occurs_singleton, css, line_braces_iff, line_body_iff, line_cssAll_iff nodes,
      Selector.joinList, Text.mem_join hcomma]
    simp [OneLine, inside]
  | block head nodes _ => by
    rw [forall_occurs_singleton, css, line_braces_iff, line_body_iff, line_cssAll_iff nodes,
      head.line_prelude_iff]
    exact Iff.rfl
  | comment _ _ => by
    rw [forall_occurs_singleton, css]
    simp [OneLine, inside]
  | other _ text _ => by
    rw [forall_occurs_singleton, css]
    simp [OneLine, inside]
  | foreign _ => by
    rw [forall_occurs_singleton, css]
    simp [OneLine, inside]

theorem line_cssAll_iff : ∀ nodes : List Node,
    (∀ t ∈ cssAll nodes, '\n' ∉ t) ↔ ∀ m, Occurs m nodes → m.OneLine
  | [] => by simp [cssAll]
  | n :: more => by
    rw [forall_occurs_cons, ← and_assoc, ← forall_occurs_singleton, cssAll,
      List.forall_mem_cons, line_css_iff n, line_cssAll_iff more]

end

end Node

end StyleSlots
