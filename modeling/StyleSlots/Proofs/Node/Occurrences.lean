import StyleSlots.Proofs.Grammar.Accepted
import StyleSlots.Proofs.Node.Declarations
import StyleSlots.Proofs.Selector.Lists

/-! # What a tree that has been read is made of

    - **Occurrence**: a node stands somewhere in a list of nodes, on its own
      or inside the rules and blocks there.
    - **Plain nodes**: what a node that has been read looks like itself,
      whatever stands inside it.
    - **Preludes**: where a rule stands in a tree, the run that it has been
      read from stands in the text.
    - **Main statements**: `plain_of_ofText`, every node of a tree that has
      been read is plain; `hasPrelude_of_ofText`, every rule has been
      read from a run at the place that it names. -/

namespace StyleSlots

/-- The head of an at-rule block as it is read. -/
structure AtRule.Plain (head : AtRule) : Prop where
  ne_nil       : head.name ≠ []
  name_char    : ∀ c ∈ head.name, isAtNameChar c = true
  trimmed      : Text.IsTrimmed head.params
  no_delimiter : ∀ c ∈ head.params, isDelimiter c = false

namespace Node

/-! ## Occurrence -/

/-- The nodes between the braces of a node. -/
def inside : Node → List Node
  | rule _ nodes _ => nodes
  | block _ nodes _ => nodes
  | _ => []

/-- Whether a node stands somewhere in a list of nodes, at any depth. -/
inductive Occurs (n : Node) : List Node → Prop where
  | here {more : List Node} : Occurs n (n :: more)
  | later {first : Node} {more : List Node} (h : Occurs n more) : Occurs n (first :: more)
  | inside {first : Node} {more : List Node} (h : Occurs n first.inside) :
      Occurs n (first :: more)

namespace Occurs

variable {m n first : Node}

theorem append {as bs : List Node} (h : Occurs n (as ++ bs)) : Occurs n as ∨ Occurs n bs := by
  induction as with
  | nil => exact .inr h
  | cons a as ih =>
    rw [List.cons_append] at h
    cases h with
    | here => exact .inl .here
    | later h => exact (ih h).imp .later id
    | inside h => exact .inl (.inside h)

theorem of_singleton {more : List Node} (h : Occurs n [first]) : Occurs n (first :: more) := by
  cases h with
  | here => exact .here
  | later h => cases h
  | inside h => exact .inside h

theorem eq_of_leaf (h : Occurs n [first]) (hleaf : first.inside = []) : n = first := by
  cases h with
  | here => rfl
  | later h => cases h
  | inside h =>
    rw [hleaf] at h
    cases h

theorem of_mem {nodes : List Node} (h : n ∈ nodes) : Occurs n nodes := by
  induction h with
  | head => exact .here
  | tail _ _ ih => exact .later ih

/-- What is inside a node stands where the node stands. -/
theorem trans {nodes : List Node} (h : Occurs m nodes) (hn : Occurs n m.inside) :
    Occurs n nodes := by
  induction h with
  | here => exact .inside hn
  | later _ ih => exact .later ih
  | inside _ ih => exact .inside ih

end Occurs

@[simp] theorem not_occurs_nil (n : Node) : ¬ Occurs n [] := by
  intro h
  cases h

/-- What holds of all nodes that occur in a list is checked node by node. -/
theorem forall_occurs_cons {P : Node → Prop} {first : Node} {more : List Node} :
    (∀ n, Occurs n (first :: more) → P n) ↔
      P first ∧ (∀ n, Occurs n first.inside → P n) ∧ ∀ n, Occurs n more → P n := by
  constructor
  · intro h
    exact ⟨h first .here, fun n hn => h n (.inside hn), fun n hn => h n (.later hn)⟩
  · rintro ⟨hfirst, hinside, hmore⟩ n hn
    cases hn with
    | here => exact hfirst
    | later hn => exact hmore n hn
    | inside hn => exact hinside n hn

/-! ## Plain nodes -/

/-- Whether a node itself is as it is read. -/
def Plain : Node → Prop
  | declaration d => d.Plain
  | rule selectors _ _ =>
    Selector.IsList selectors ∧ ∀ s ∈ selectors, ∀ c ∈ s, isDelimiter c = false
  | block head _ _ => head.Plain
  | comment _ _ => True
  | other kind text _ => ∃ name params, IsAtHead name params ∧ kind = '@' :: name ∧
    text = '@' :: name ++ params ++ [';']
  | foreign _ => False

end Node

namespace Item

open Node

/-! ## Nodes in a text -/

/-- Whether a node is meant by a legal item that stands somewhere in a text,
    where `p` is the place of the first character. -/
def MeantIn (p : Position) (t : Text) (n : Node) : Prop :=
  ∃ before item behind, t = before ++ written item ++ behind ∧ item.Legal ∧
    n ∈ item.nodes (p.behind before)

namespace MeantIn

variable {p : Position} {n : Node}

theorem self {item : Item} (h : item.Legal) (hn : n ∈ item.nodes p) :
    MeantIn p item.written n := ⟨[], item, [], by simp, h, hn⟩

/-- Text on either side moves an item, and its nodes with it. -/
theorem append {s t : Text} (h : MeantIn (p.behind s) t n) (u : Text) :
    MeantIn p (s ++ t ++ u) n := by
  obtain ⟨before, item, behind, rfl, hitem, hn⟩ := h
  refine ⟨s ++ before, item, behind ++ u, by simp, hitem, ?_⟩
  rwa [Position.behind_append]

end MeantIn

mutual

theorem meantIn_of_occurs : ∀ (item : Item) (p : Position) (n : Node), item.Legal →
    Occurs n (item.nodes p) → MeantIn p item.written n
  | gap _, _, _, _, hn => by cases hn
  | semicolon, _, _, _, hn => by cases hn
  | comment _, _, _, h, hn => .self h (List.mem_singleton.2 (hn.eq_of_leaf rfl))
  | statement _ _, _, _, h, hn => .self h (List.mem_singleton.2 (hn.eq_of_leaf rfl))
  | declaration run, p, n, h, hn => by
    -- there is one node, or none if the run is no declaration
    have hmem : n ∈ (declaration run).nodes p := by
      rw [nodes] at hn ⊢
      cases hread : Declaration.ofRun? run (some p) with
      | none =>
        rw [hread] at hn
        cases hn
      | some d =>
        rw [hread] at hn
        exact List.mem_singleton.2 (hn.eq_of_leaf rfl)
    exact .self h hmem
  -- a node between the braces stands in the text of the items there, and
  -- that text stands in the text of the whole
  | rule run items, p, n, h, hn => by
    cases hn with
    | here => exact .self h (List.mem_singleton_self _)
    | later hn => cases hn
    | inside hn =>
      have hinner := meantIn_of_occurs_all items _ n h.2 hn
      have houter := hinner.append ['\x7d']
      simpa [written] using houter
  | block name params items, p, n, h, hn => by
    cases hn with
    | here => exact .self h (List.mem_singleton_self _)
    | later hn => cases hn
    | inside hn =>
      have hinner := meantIn_of_occurs_all items _ n h.2 hn
      have houter := hinner.append ['\x7d']
      simpa [written] using houter

/-- A node that occurs in the meaning of items is meant by one of them, or by
    one that stands further inside. -/
theorem meantIn_of_occurs_all : ∀ (items : List Item) (p : Position) (n : Node), LegalAll items →
    Occurs n (nodesAll p items) → MeantIn p (writtenAll items) n
  | [], _, _, _, hn => by cases hn
  | item :: more, p, n, h, hn => by
    rw [writtenAll]
    rcases Occurs.append hn with hn | hn
    · have hitem := meantIn_of_occurs item p n h.1 hn
      exact MeantIn.append (s := []) hitem (writtenAll more)
    · have hmore := meantIn_of_occurs_all more _ n h.2.2 hn
      have hall := hmore.append []
      rwa [List.append_nil] at hall

end

/-! ## What items mean -/

theorem plain_head {name params : Text} (h : IsAtHead name params) :
    AtRule.Plain ⟨name, params.trim⟩ where
  ne_nil := h.ne_nil
  name_char := h.name_char
  trimmed := Text.isTrimmed_trim params
  no_delimiter := fun c hc => h.no_delimiter c (Text.mem_of_mem_trim hc)

/-- A legal item means plain nodes. -/
theorem plain_of_mem_nodes {item : Item} (h : item.Legal) {p : Position} {n : Node}
    (hn : n ∈ item.nodes p) : n.Plain := by
  cases item with
  | gap c => cases hn
  | semicolon => cases hn
  | comment body =>
    obtain rfl := List.mem_singleton.1 hn
    trivial
  | statement name params =>
    obtain rfl := List.mem_singleton.1 hn
    exact ⟨name, params, h, rfl, rfl⟩
  | declaration run =>
    have hrun : IsRun run := h
    obtain ⟨d, hd, rfl⟩ := List.mem_map.1 hn
    exact Declaration.plain_of_ofRun? hrun (Option.mem_toList.1 hd)
  | rule run items =>
    obtain rfl := List.mem_singleton.1 hn
    refine ⟨Selector.isList_split run, ?_⟩
    intro s hs c hc
    exact h.1.no_delimiter c (Selector.mem_of_mem_split hs hc)
  | block name params items =>
    obtain rfl := List.mem_singleton.1 hn
    exact plain_head h.1

/-- Only the item of a rule means a rule. -/
theorem exists_of_rule_mem_nodes {item : Item} {p : Position} {selectors : List Text}
    {contents : List Node} {start : Option Position}
    (hn : Node.rule selectors contents start ∈ item.nodes p) :
    ∃ run items, item = .rule run items ∧ selectors = Selector.split run ∧ start = some p := by
  cases item with
  | gap c => cases hn
  | semicolon => cases hn
  | comment body => cases List.mem_singleton.1 hn
  | statement name params => cases List.mem_singleton.1 hn
  | declaration run =>
    obtain ⟨d, _, heq⟩ := List.mem_map.1 hn
    cases heq
  | rule run items =>
    cases List.mem_singleton.1 hn
    exact ⟨run, items, rfl, rfl, rfl⟩
  | block name params items => cases List.mem_singleton.1 hn

end Item

namespace Node

/-- The nodes of a tree that has been read stand in the text as items. -/
theorem meantIn_of_ofText {source t : Text} {nodes : List Node}
    (h : Node.ofText source t = .ok nodes) {n : Node} (hn : Occurs n nodes) :
    Item.MeantIn (.origin source) t n := by
  obtain ⟨items, ⟨hlegal, rfl⟩, _, rfl⟩ := Node.ofText_eq_ok_iff.1 h
  exact Item.meantIn_of_occurs_all items _ n hlegal hn

/-- The nodes of a tree that has been read are plain, at every depth. -/
theorem plain_of_ofText {source t : Text} {nodes : List Node}
    (h : Node.ofText source t = .ok nodes) {n : Node} (hn : Occurs n nodes) : n.Plain := by
  obtain ⟨_, _, _, _, hlegal, hmem⟩ := meantIn_of_ofText h hn
  exact Item.plain_of_mem_nodes hlegal hmem

/-- A rule of a tree that has been read comes from a run in the text, where
    the rule says that it starts. -/
theorem exists_run_of_ofText {source t : Text} {nodes : List Node}
    (h : Node.ofText source t = .ok nodes) {selectors : List Text} {contents : List Node}
    {start : Option Position} (hrule : Occurs (.rule selectors contents start) nodes) :
    ∃ before run behind, t = before ++ run ++ '\x7b' :: behind ∧ IsRun run ∧
      selectors = Selector.split run ∧ start = some ((Position.origin source).behind before) := by
  obtain ⟨before, item, behind, ht, hlegal, hmem⟩ := meantIn_of_ofText h hrule
  obtain ⟨run, items, rfl, rfl, rfl⟩ := Item.exists_of_rule_mem_nodes hmem
  refine ⟨before, run, Item.writtenAll items ++ '\x7d' :: behind, ?_, hlegal.1, rfl, rfl⟩
  rw [ht]
  simp [Item.written]

end Node

end StyleSlots
