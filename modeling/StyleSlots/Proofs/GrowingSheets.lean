import StyleSlots.Proofs.Cascade.Emissions
import StyleSlots.Proofs.SortedRules

/-! # Style sheets grow at the end

    A page that already has a style sheet can be sent what is new in a longer
    one.

    - **New texts**: those of further rules that the style sheet does not
      have, each where it occurs first.
    - **Same configuration**: compilers with one scheme make rules with the
      same texts of a tree, whatever they have compiled before and whether
      they move shorthands or not.
    - **Main statement**: `styleSheet_append`, with further rules a style
      sheet is continued by the new texts. It stays as it is if and only if
      there are none, as when a tree is compiled once more. -/

namespace StyleSlots

/-! ## Joined texts -/

theorem Text.join_append (separator : Text) {ss ts : List Text} (hs : ss ≠ []) (ht : ts ≠ []) :
    join separator (ss ++ ts) = join separator ss ++ separator ++ join separator ts := by
  induction ss with
  | nil => exact absurd rfl hs
  | cons s ss ih =>
    cases ss with
    | nil =>
      obtain ⟨t, more, rfl⟩ := List.exists_cons_of_ne_nil ht
      rfl
    | cons s' ss =>
      have hmore : join separator (s' :: ss ++ ts) =
          join separator (s' :: ss) ++ separator ++ join separator ts := ih (by simp)
      calc join separator (s :: s' :: ss ++ ts)
          = s ++ separator ++ join separator (s' :: ss ++ ts) := rfl
        _ = join separator (s :: s' :: ss) ++ separator ++ join separator ts := by
          rw [hmore]
          simp [join]

/-- What is written between a text and further parts: the separator, unless
    there is nothing on one side. -/
def joint (separator before : Text) (parts : List Text) : Text :=
  if before = [] ∨ parts = [] then [] else separator

theorem Text.join_append_joint (separator : Text) {ss : List Text} (h : [] ∉ ss) (ts : List Text) :
    join separator (ss ++ ts) =
      join separator ss ++ joint separator (join separator ss) ts ++ join separator ts := by
  unfold joint
  by_cases hs : ss = []
  · simp [hs, join]
  · by_cases ht : ts = []
    · simp [ht, join]
    · have hne : join separator ss ≠ [] := fun hnil => hs ((join_eq_nil_iff h).1 hnil)
      rw [if_neg (by simp [hne, ht]), join_append separator hs ht]

/-! ## New texts -/

section Growth

variable (carried : List Node) (xs ys : List AtomicRule)

/-- The texts of the rules `ys` that a style sheet of `xs` does not have, each
    once and in the order in which they first occur. -/
def newTexts : List Text :=
  distinct ((ys.map AtomicRule.css).filter (· ∉ (renderings carried xs).toList))

theorem mem_newTexts {t : Text} : t ∈ newTexts carried xs ys ↔
    (∃ r ∈ ys, r.css = t) ∧ t ∉ (renderings carried xs).toList := by
  simp [newTexts, List.mem_filter]

theorem nil_not_mem_newTexts : [] ∉ newTexts carried xs ys := by
  intro hmem
  obtain ⟨⟨r, -, hr⟩, -⟩ := (mem_newTexts carried xs ys).1 hmem
  exact r.css_ne_nil hr

theorem nil_not_mem_renderings : [] ∉ (renderings carried xs).toList := by
  simp [renderings, OrderedSet.toList_ofList]

theorem css_mem_renderings {r : AtomicRule} {rules : List AtomicRule} (h : r ∈ rules) :
    r.css ∈ (renderings carried rules).toList := by
  rw [toList_renderings, mem_distinct]
  exact List.mem_append_right _ (List.mem_map_of_mem h)

/-- The texts of further rules are looked for among those written before. -/
theorem toList_renderings_append : (renderings carried (xs ++ ys)).toList =
    (renderings carried xs).toList ++ newTexts carried xs ys := by
  unfold newTexts
  rw [toList_renderings, toList_renderings, List.map_append, ← List.append_assoc, distinct_append]
  -- to be among the texts is to be among the distinct ones
  refine congrArg _ (congrArg distinct (List.filter_congr ?_))
  intro t _
  exact decide_eq_decide.2 (not_congr mem_distinct.symm)

theorem newTexts_eq_nil_iff :
    newTexts carried xs ys = [] ↔ ∀ r ∈ ys, r.css ∈ (renderings carried xs).toList := by
  rw [List.eq_nil_iff_forall_not_mem]
  constructor
  · intro h r hr
    by_contra hnot
    exact h r.css ((mem_newTexts carried xs ys).2 ⟨⟨r, hr, rfl⟩, hnot⟩)
  · rintro h t ht
    obtain ⟨⟨r, hr, rfl⟩, hnot⟩ := (mem_newTexts carried xs ys).1 ht
    exact hnot (h r hr)

theorem styleSheet_append_eq (separator : Text) : styleSheet separator carried (xs ++ ys) =
    styleSheet separator carried xs ++
      joint separator (styleSheet separator carried xs) (newTexts carried xs ys) ++
      Text.join separator (newTexts carried xs ys) := by
  have hfull := nil_not_mem_renderings carried xs
  unfold styleSheet
  rw [toList_renderings_append, Text.join_append_joint separator hfull]

theorem styleSheet_append_eq_self_iff (separator : Text) :
    styleSheet separator carried (xs ++ ys) = styleSheet separator carried xs ↔
      ∀ r ∈ ys, r.css ∈ (renderings carried xs).toList := by
  rw [← newTexts_eq_nil_iff, styleSheet_append_eq, List.append_assoc]
  constructor
  · intro h
    -- nothing has been added, and a new text would have been
    have hnil := List.append_eq_nil_iff.1 (List.append_right_eq_self.1 h)
    exact (Text.join_eq_nil_iff (nil_not_mem_newTexts carried xs ys)).1 hnil.2
  · intro h
    simp [h, joint, Text.join]

end Growth

/-! ## Compiling again -/

namespace Compiler

variable {c c' : Compiler}

theorem perm_placements_plain (c : Compiler) (tree : List Node) :
    (c.placements tree).Perm (Placement.ofTree c.scheme tree) := by
  by_cases hsort : c.shorthandFirst = true
  · rw [placements, prepare, if_pos hsort]
    exact Placement.perm_ofTree_order c.scheme tree
  · rw [placements, prepare, if_neg hsort]

/-- With one scheme a tree is compiled to the same rules, in some order. -/
theorem exists_perm_of_scheme_eq (hscheme : c'.scheme = c.scheme) {tree : List Node}
    {rules : List AtomicRule} (h : (c.compile tree).2.rules = .ok rules) :
    ∃ again, (c'.compile tree).2.rules = .ok again ∧ again.Perm rules := by
  have hrefusal : (c'.trace tree).refusal = none := by
    have hnone := (compile_rules_eq_ok_iff.1 h).1
    rw [refusal_trace] at hnone ⊢
    rwa [hscheme]
  have hagain := compile_rules_eq_ok_iff.2 ⟨hrefusal, rfl⟩
  refine ⟨_, hagain, ?_⟩
  -- both orders are orders of the placements of the tree as it is
  have hperm : (c'.placements tree).Perm (c.placements tree) := by
    have hplain := c'.perm_placements_plain tree
    rw [hscheme] at hplain
    exact hplain.trans (c.perm_placements_plain tree).symm
  rw [rules_of_ok hagain, rules_of_ok h, hscheme]
  exact hperm.map (Placement.rule c.scheme)

end Compiler

/-- A style sheet that gets further rules keeps what it has, and behind it are
    written the texts that it does not have, each once, in the order of their
    first occurrence and with the separator between them. So it stays as it is
    if and only if it has the texts of all these rules: for one, if they come
    from a tree whose rules it has from an earlier compilation under the same
    scheme. -/
theorem styleSheet_append (separator : Text) (carried : List Node) (xs ys : List AtomicRule) :
    (renderings carried (xs ++ ys)).toList =
      (renderings carried xs).toList ++ newTexts carried xs ys ∧
    styleSheet separator carried (xs ++ ys) = styleSheet separator carried xs ++
      joint separator (styleSheet separator carried xs) (newTexts carried xs ys) ++
      Text.join separator (newTexts carried xs ys) ∧
    (styleSheet separator carried (xs ++ ys) = styleSheet separator carried xs ↔
      ∀ r ∈ ys, r.css ∈ (renderings carried xs).toList) ∧
    ∀ (c c' : Compiler) (tree : List Node) (rules : List AtomicRule), c'.scheme = c.scheme →
      (c.compile tree).2.rules = .ok rules → rules ⊆ xs →
      ∃ again, (c'.compile tree).2.rules = .ok again ∧
        styleSheet separator carried (xs ++ again) = styleSheet separator carried xs := by
  refine ⟨toList_renderings_append carried xs ys, styleSheet_append_eq carried xs ys separator,
    styleSheet_append_eq_self_iff carried xs ys separator, ?_⟩
  intro c c' tree rules hscheme hrules hin
  obtain ⟨again, hagain, hperm⟩ := Compiler.exists_perm_of_scheme_eq hscheme hrules
  refine ⟨again, hagain, (styleSheet_append_eq_self_iff ..).2 ?_⟩
  intro r hr
  exact css_mem_renderings carried (hin (hperm.mem_iff.1 hr))

/-- The tree is compiled once more, by a compiler that moves shorthands. -/
theorem styleSheet_append_overriding :
    ∃ rules, (freshCompiler.compile overridingTree).2.rules = .ok rules ∧ rules.length = 4 ∧
      ∃ again, ((freshCompiler.sorting true).compile overridingTree).2.rules = .ok again ∧
        styleSheet ['\n'] (freshCompiler.compile overridingTree).1.carried (rules ++ again) =
          styleSheet ['\n'] (freshCompiler.compile overridingTree).1.carried rules := by
  have hok : (freshCompiler.compile overridingTree).2.rules =
      .ok (freshCompiler.trace overridingTree).rules :=
    Compiler.compile_rules_eq_ok_iff.2 ⟨rfl, rfl⟩
  obtain ⟨-, -, -, hagain⟩ := styleSheet_append ['\n']
    (freshCompiler.compile overridingTree).1.carried (freshCompiler.trace overridingTree).rules []
  exact ⟨_, hok, rfl, hagain freshCompiler (freshCompiler.sorting true) _ _ rfl hok
    (List.Subset.refl _)⟩

end StyleSlots
