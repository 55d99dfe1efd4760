import StyleSlots.Proofs.Cascade.InOrder
import StyleSlots.Proofs.Trace.Misplaced
import StyleSlots.StyleSheet

/-! # Shorthands are emitted first

    Atomic rules are equally specific, so their order in a style sheet
    decides which of them wins. Ordering takes care of it scope by scope.

    - **One scope**: the places of one list of nodes. Their paths differ in
      the last step only.
    - **Emissions**: the rules of a compilation, each with the place that it
      is made for.
    - **Style sheets**: a text is written where it comes first, which may be
      for a rule of another scope.
    - **Main statement**: `Compiler.shorthands_emitted_first`, of the rules
      that are made for one scope those of a shorthand come before those of
      its constituents. -/

namespace StyleSlots

/-! ## Places of one scope -/

namespace Place

/-- Whether two places are of one list of nodes. -/
def SameScope (p q : Place) : Prop := p.path.dropLast = q.path.dropLast

variable {nodes : List Node} {p q : Place}

theorem path_ne_nil (h : p.In nodes) : p.path ≠ [] := by
  cases h with
  | here h => exact List.cons_ne_nil _ _
  | inside h hp => exact List.cons_ne_nil _ _

theorem dropLast_path_below (h : p.In nodes) (i : Nat) (outer : Node) :
    (p.below [i] [outer]).path.dropLast = i :: p.path.dropLast :=
  List.dropLast_append_of_ne_nil (path_ne_nil h)

end Place

namespace Cascade

variable {nodes nodes' : List Node} {p q : Place} {a b : Declaration}

/-- In a tree in which every scope is in order, no declaration stands behind
    one of the same scope that it supersedes. -/
theorem InOrder.supersedes_eq_false (h : InOrder nodes) (hp : p.In nodes) (hq : q.In nodes)
    (hscope : p.SameScope q) (hlt : p.path < q.path) (ha : p.node = .declaration a)
    (hb : q.node = .declaration b) : supersedes b.prop a.prop = false := by
  induction hp generalizing q with
  | @here nodes i node hi =>
    cases hq with
    | @here _ j node' hj =>
      -- both stand in the list itself
      have hij : i < j := by simpa [Place.here, List.cons_lt_cons_iff] using hlt
      obtain rfl : node = .declaration a := ha
      obtain rfl : node' = .declaration b := hb
      obtain ⟨hfirst, -⟩ := h
      exact hfirst i j a b hij hi hj
    | inside hj hq =>
      rw [Place.SameScope, Place.dropLast_path_below hq] at hscope
      cases hscope
  | @inside nodes i outer p hi hp ih =>
    cases hq with
    | here hj =>
      rw [Place.SameScope, Place.dropLast_path_below hp] at hscope
      cases hscope
    | @inside _ j outer' q hj hq =>
      -- both stand inside of one node
      rw [Place.SameScope, Place.dropLast_path_below hp, Place.dropLast_path_below hq] at hscope
      obtain ⟨rfl, hinner⟩ := List.cons.inj hscope
      obtain rfl : outer = outer' := Option.some.inj (hi.symm.trans hj)
      have hlt' : p.path < q.path := by simpa [Place.below, List.cons_lt_cons_iff] using hlt
      obtain ⟨-, hinside⟩ := h
      exact ih (hinside outer (List.mem_of_getElem? hi)) hq hinner hlt' ha hb

/-- A reordered list is in order if what is inside its nodes is. -/
theorem Reordered.inOrder_of_each (h : Reordered nodes nodes')
    (heach : ∀ node' ∈ nodes', ∀ node, InPlaceOf node node' → InOrder node'.inside) :
    InOrder nodes' := by
  refine .intro (by obtain ⟨-, -, hfirst⟩ := h; exact hfirst) ?_
  intro node' hnode'
  obtain ⟨i, hi⟩ := List.mem_iff_getElem?.1 hnode'
  obtain ⟨node, -, hplace⟩ := h.exists_getElem? hi
  exact heach node' hnode' node hplace

theorem InPlaceOf.inOrder_inside {node : Node} : ∀ {node' : Node}, InPlaceOf node' node →
    InOrder node.inside := by
  induction node using Node.inside_induction with
  | step node ih =>
    intro node' h
    exact h.reordered_inside.inOrder_of_each fun inner hinner _ hplace => ih inner hinner hplace

/-- A reordered tree is in order at every depth. -/
theorem Reordered.inOrder (h : Reordered nodes nodes') : InOrder nodes' :=
  h.inOrder_of_each fun _ _ _ hplace => hplace.inOrder_inside

/-- A declaration of a reordered tree stands in the same scope of the tree. -/
theorem Reordered.exists_sameScope (h : Reordered nodes nodes') (hp : p.In nodes')
    (ha : p.node = .declaration a) :
    ∃ q : Place, q.In nodes ∧ q.SameScope p ∧ q.node = .declaration a := by
  induction hp generalizing nodes with
  | @here nodes' i node' hi =>
    obtain ⟨-, hperm, -⟩ := h
    obtain rfl : node' = .declaration a := ha
    have hmem : a ∈ Node.declarations nodes' :=
      Node.mem_declarations.2 (List.mem_of_getElem? hi)
    obtain ⟨j, hj⟩ := List.mem_iff_getElem?.1 (Node.mem_declarations.1 (hperm.mem_iff.1 hmem))
    exact ⟨.here j (.declaration a), .here hj, rfl, rfl⟩
  | @inside nodes' i outer' p hi hp ih =>
    obtain ⟨outer, houter, hplace⟩ := h.exists_getElem? hi
    obtain ⟨q, hq, hscope, hnode⟩ := ih hplace.reordered_inside ha
    refine ⟨q.below [i] [outer], .inside houter hq, ?_, hnode⟩
    rw [Place.SameScope, Place.dropLast_path_below hq, Place.dropLast_path_below hp, hscope]

end Cascade

/-! ## Emissions -/

/-- A rule with the place that it is made for. -/
structure Emission where
  place : Place
  rule  : AtomicRule

/-- The rules of places, as they come when a tree is compiled. -/
def emissions (scheme : Scheme) (ps : List Place) : List Emission :=
  (ps.filter (Place.made scheme)).flatMap fun p => (p.rules scheme).map (Emission.mk p)

section Emissions

variable {scheme : Scheme} {nodes : List Node} {p : Place}

theorem map_rule_emissions (ps : List Place) : (emissions scheme ps).map Emission.rule =
    (ps.filter (Place.made scheme)).flatMap (Place.rules scheme) := by
  rw [emissions, List.map_flatMap]
  refine List.flatMap_congr ?_
  intro p _
  rw [List.map_map]
  exact List.map_id _

theorem mem_emissions {ps : List Place} {e : Emission} : e ∈ emissions scheme ps ↔
    (e.place ∈ ps ∧ e.place.made scheme = true) ∧ e.rule ∈ e.place.rules scheme := by
  rw [emissions, List.mem_flatMap]
  constructor
  · rintro ⟨p, hp, he⟩
    obtain ⟨r, hr, rfl⟩ := List.mem_map.1 he
    exact ⟨List.mem_filter.1 hp, hr⟩
  · rintro ⟨hp, hr⟩
    exact ⟨e.place, List.mem_filter.2 hp, List.mem_map.2 ⟨e.rule, hr, rfl⟩⟩

/-- All rules of a place are for the declaration there. -/
theorem Place.node_of_mem_rules {r : AtomicRule} (h : r ∈ p.rules scheme) :
    p.node = .declaration r.declaration := by
  rw [rules] at h
  split at h
  · next d hnode =>
    obtain ⟨normal, -, rfl⟩ := List.mem_map.1 h
    exact hnode
  · cases h

/-- Where every scope is in order, no rule comes behind one of the same scope
    that it supersedes. -/
theorem pairwise_emissions (scheme : Scheme) (h : Cascade.InOrder nodes) :
    (emissions scheme (places nodes)).Pairwise fun a b => a.place.SameScope b.place →
      Cascade.supersedes b.rule.declaration.prop a.rule.declaration.prop = false := by
  rw [emissions, List.pairwise_flatMap]
  constructor
  · -- the rules of one place are for one property
    intro p _
    refine List.pairwise_of_forall_mem_list ?_
    intro a ha b hb _
    obtain ⟨r, hr, rfl⟩ := List.mem_map.1 ha
    obtain ⟨s, hs, rfl⟩ := List.mem_map.1 hb
    have hsame : r.declaration = s.declaration := by
      have heq := (Place.node_of_mem_rules hr).symm.trans (Place.node_of_mem_rules hs)
      exact Node.declaration.inj heq
    rw [hsame]
    exact Cascade.supersedes_self _
  · refine ((documentOrder_places nodes).ordered.filter _).imp_of_mem ?_
    intro p q hp hq hlt a ha b hb hscope
    obtain ⟨r, hr, rfl⟩ := List.mem_map.1 ha
    obtain ⟨s, hs, rfl⟩ := List.mem_map.1 hb
    exact h.supersedes_eq_false (mem_places_iff.1 (List.mem_filter.1 hp).1)
      (mem_places_iff.1 (List.mem_filter.1 hq).1) hscope hlt (Place.node_of_mem_rules hr)
      (Place.node_of_mem_rules hs)

/-- So a rule that supersedes another one of the same scope comes first. -/
theorem lt_of_supersedes (h : Cascade.InOrder nodes) {i j : Nat} {a b : Emission}
    (hi : (emissions scheme (places nodes))[i]? = some a)
    (hj : (emissions scheme (places nodes))[j]? = some b) (hscope : a.place.SameScope b.place)
    (hsupersedes : Cascade.supersedes a.rule.declaration.prop b.rule.declaration.prop = true) :
    i < j := by
  rcases Nat.lt_trichotomy i j with hlt | rfl | hlt
  · exact hlt
  · obtain rfl : a = b := Option.some.inj (hi.symm.trans hj)
    rw [Cascade.supersedes_self] at hsupersedes
    cases hsupersedes
  · obtain ⟨hilt, rfl⟩ := List.getElem?_eq_some_iff.1 hi
    obtain ⟨hjlt, rfl⟩ := List.getElem?_eq_some_iff.1 hj
    have hfirst := List.pairwise_iff_getElem.1 (pairwise_emissions scheme h)
    rw [hfirst j i hjlt hilt hlt hscope.symm] at hsupersedes
    cases hsupersedes

end Emissions

/-! ## Style sheets -/

/-- What comes behind other elements, and is not among them, also comes
    behind them where copies are left out. -/
theorem pair_sublist_distinct {α : Type} [DecidableEq α] {xs ys : List α} {a b : α} (ha : a ∈ xs)
    (hb : b ∈ ys) (hnot : b ∉ xs) : [a, b].Sublist (distinct (xs ++ ys)) := by
  rw [distinct_append]
  have hmem : b ∈ distinct (ys.filter (· ∉ xs)) := by
    rw [mem_distinct, List.mem_filter]
    exact ⟨hb, by simpa using hnot⟩
  exact (List.singleton_sublist.2 (mem_distinct.2 ha)).append (List.singleton_sublist.2 hmem)

theorem AtomicRule.css_ne_nil (r : AtomicRule) : r.css ≠ [] := by
  unfold css
  cases r.context <;> simp [Node.braces]

/-- All rules are written, since none of them has an empty text. -/
theorem toList_renderings (carried : List Node) (rules : List AtomicRule) :
    (renderings carried rules).toList =
      distinct ((carried.map Node.css).filter (! ·.isEmpty) ++ rules.map AtomicRule.css) := by
  have hrules : (rules.map AtomicRule.css).filter (! ·.isEmpty) = rules.map AtomicRule.css := by
    rw [List.filter_eq_self]
    intro t ht
    obtain ⟨r, -, rfl⟩ := List.mem_map.1 ht
    simp [r.css_ne_nil]
  rw [renderings, OrderedSet.toList_ofList, List.filter_append, hrules]

/-- A rule whose text has not been written by the time that another one has
    been emitted is written behind it. -/
theorem pair_sublist_renderings {carried : List Node} {rules : List AtomicRule} {i j : Nat}
    {a b : AtomicRule} (hi : rules[i]? = some a) (hj : rules[j]? = some b) (hlt : i < j)
    (hnot : b.css ∉ carried.map Node.css ++ (rules.take (i + 1)).map AtomicRule.css) :
    [a.css, b.css].Sublist (renderings carried rules).toList := by
  have ha : a ∈ rules.take (i + 1) := by
    refine List.mem_of_getElem? (i := i) ?_
    rw [List.getElem?_take_of_lt (Nat.lt_succ_self i), hi]
  have hb : b ∈ rules.drop (i + 1) := by
    refine List.mem_of_getElem? (i := j - (i + 1)) ?_
    rw [List.getElem?_drop, Nat.add_sub_cancel' hlt, hj]
  -- the texts up to the first of the two rules, and those behind it
  have hsplit : rules.map AtomicRule.css =
      (rules.take (i + 1)).map AtomicRule.css ++ (rules.drop (i + 1)).map AtomicRule.css := by
    rw [← List.map_append, List.take_append_drop]
  rw [toList_renderings, hsplit, ← List.append_assoc]
  refine pair_sublist_distinct ?_ (List.mem_map_of_mem hb) ?_
  · exact List.mem_append_right _ (List.mem_map_of_mem ha)
  · intro hmem
    refine hnot (List.mem_append.2 ?_)
    exact (List.mem_append.1 hmem).imp_left fun hcarried => (List.mem_filter.1 hcarried).1

/-! ## Compilations -/

namespace Compiler

variable {c : Compiler} {nodes : List Node}

/-- The rules of a compilation, each with the place that it is made for. -/
def emissions (c : Compiler) (nodes : List Node) : List Emission :=
  StyleSlots.emissions c.scheme (places (c.prepare nodes))

theorem map_rule_emissions_of_ok {rules : List AtomicRule}
    (h : (c.compile nodes).2.rules = .ok rules) :
    (c.emissions nodes).map Emission.rule = rules := by
  rw [emissions, map_rule_emissions, rules_eq_made h]

theorem reordered_prepare (hfirst : c.shorthandFirst = true) (nodes : List Node) :
    Cascade.Reordered nodes (c.prepare nodes) := by
  rw [prepare, if_pos hfirst]
  exact Cascade.reordered_order nodes

/-- If shorthands are moved first, the rules of a tree are made for
    declarations of its scopes, and of two rules for one scope the one for a
    shorthand comes before the one for its constituent. In a style sheet it
    also stands before it, unless the text of the latter has been written
    already, for a node that is carried along or for an earlier rule. -/
theorem shorthands_emitted_first {rules : List AtomicRule} (hfirst : c.shorthandFirst = true)
    (h : (c.compile nodes).2.rules = .ok rules) :
    (c.emissions nodes).map Emission.rule = rules ∧
    (∀ e ∈ c.emissions nodes, ∃ p : Place, p.In nodes ∧ p.SameScope e.place ∧
      p.node = .declaration e.rule.declaration) ∧
    ∀ (i j : Nat) (a b : Emission), (c.emissions nodes)[i]? = some a →
      (c.emissions nodes)[j]? = some b → a.place.SameScope b.place →
      Cascade.supersedes a.rule.declaration.prop b.rule.declaration.prop = true →
      i < j ∧ ∀ carried : List Node,
        b.rule.css ∉ carried.map Node.css ++ (rules.take (i + 1)).map AtomicRule.css →
        [a.rule.css, b.rule.css].Sublist (renderings carried rules).toList := by
  have hreordered := reordered_prepare hfirst nodes
  have hrules := map_rule_emissions_of_ok h
  refine ⟨hrules, ?_, ?_⟩
  · intro e he
    obtain ⟨⟨hplace, -⟩, hrule⟩ := mem_emissions.1 he
    exact hreordered.exists_sameScope (mem_places_iff.1 hplace) (Place.node_of_mem_rules hrule)
  · intro i j a b hi hj hscope hsupersedes
    have hlt := lt_of_supersedes hreordered.inOrder hi hj hscope hsupersedes
    refine ⟨hlt, ?_⟩
    intro carried hnot
    refine pair_sublist_renderings ?_ ?_ hlt hnot
    · rw [← hrules, List.getElem?_map, hi, Option.map_some]
    · rw [← hrules, List.getElem?_map, hj, Option.map_some]

/-- A rule with a shorthand behind one of its constituents. -/
def behindTree : List Node :=
  [.rule ["a".toList]
    [.declaration ⟨"margin-top".toList, "1px".toList, false, none⟩,
     .declaration ⟨"margin".toList, "0".toList, false, none⟩] none]

/-- The shorthand comes first although it has been written last. -/
theorem shorthands_emitted_first_behind :
    ∃ a b, ((freshCompiler.sorting true).compile behindTree).2.rules = .ok [a, b] ∧
      a.declaration = ⟨"margin".toList, "0".toList, false, none⟩ ∧
      b.declaration = ⟨"margin-top".toList, "1px".toList, false, none⟩ ∧
      [a.css, b.css].Sublist (renderings [] [a, b]).toList := by
  have hplain : (freshCompiler.compile behindTree).2.rules =
      .ok (freshCompiler.trace behindTree).rules := compile_rules_eq_ok_iff.2 ⟨rfl, rfl⟩
  have hok := compile_sorting_ok hplain true
  obtain ⟨hrules, -, hfirst⟩ := shorthands_emitted_first rfl hok
  have hemissions : ((freshCompiler.sorting true).emissions behindTree).map
      (fun e => (e.place.path, e.rule.context, e.rule.declaration)) =
        [([0, 0], [], ⟨"margin".toList, "0".toList, false, none⟩),
         ([0, 1], [], ⟨"margin-top".toList, "1px".toList, false, none⟩)] := by decide +kernel
  obtain ⟨a, more, hcons, ha, hmore⟩ := List.map_eq_cons_iff.1 hemissions
  obtain ⟨b, none, rfl, hb, hnone⟩ := List.map_eq_cons_iff.1 hmore
  obtain rfl := List.map_eq_nil_iff.1 hnone
  simp only [Prod.mk.injEq] at ha hb
  obtain ⟨hapath, hacontext, hadeclaration⟩ := ha
  obtain ⟨hbpath, hbcontext, hbdeclaration⟩ := hb
  rw [hcons] at hrules hfirst
  have hscope : a.place.SameScope b.place := by rw [Place.SameScope, hapath, hbpath]; rfl
  obtain ⟨-, hsheet⟩ := hfirst 0 1 a b rfl rfl hscope
    (by rw [hadeclaration, hbdeclaration]; decide +kernel)
  refine ⟨a.rule, b.rule, by rw [hok, ← hrules]; rfl, hadeclaration, hbdeclaration, ?_⟩
  rw [← hrules] at hsheet
  refine hsheet [] ?_
  -- the texts differ in front of the closing brace, whatever the classes are
  show b.rule.css ∉ [a.rule.css]
  rw [List.mem_singleton]
  intro hsame
  have hreverse := congrArg List.reverse hsame
  simp [AtomicRule.css, hacontext, hbcontext, hadeclaration, hbdeclaration, Node.braces,
    Declaration.css] at hreverse

/-- A constituent and its shorthand three times over: at the top level and in
    a rule for the element itself, in two rules for one selector, and in two
    blocks for one condition. -/
def scatteredTree : List Node :=
  [.declaration ⟨"margin-top".toList, "1px".toList, false, none⟩,
   .rule ["&".toList] [.declaration ⟨"margin".toList, "0".toList, false, none⟩] none,
   .rule [":hover".toList] [.declaration ⟨"padding-top".toList, "1px".toList, false, none⟩] none,
   .rule ["&:hover".toList] [.declaration ⟨"padding".toList, "0".toList, false, none⟩] none,
   .block ⟨"media".toList, "print".toList⟩
     [.declaration ⟨"row-gap".toList, "1px".toList, false, none⟩] none,
   .block ⟨"media".toList, "print".toList⟩
     [.declaration ⟨"gap".toList, "0".toList, false, none⟩] none]

/-- What is placed for it, a constituent with its shorthand each. -/
def scatteredPlacements : List (Placement × Placement) :=
  [(⟨[], [], false, ⟨"margin-top".toList, "1px".toList, false, none⟩⟩,
    ⟨[], "&".toList, true, ⟨"margin".toList, "0".toList, false, none⟩⟩),
   (⟨[], ":hover".toList, true, ⟨"padding-top".toList, "1px".toList, false, none⟩⟩,
    ⟨[], "&:hover".toList, true, ⟨"padding".toList, "0".toList, false, none⟩⟩),
   (⟨[⟨"media".toList, "print".toList⟩], [], false,
      ⟨"row-gap".toList, "1px".toList, false, none⟩⟩,
    ⟨[⟨"media".toList, "print".toList⟩], [], false, ⟨"gap".toList, "0".toList, false, none⟩⟩)]

/-- Among rules of different scopes shorthands are left behind their
    constituents, though both have the same labels and normal selector. -/
theorem shorthands_left_behind :
    ∃ rules, ((freshCompiler.sorting true).compile scatteredTree).2.rules = .ok rules ∧
      rules = (scatteredPlacements.flatMap fun pair => [pair.1, pair.2]).map
        (Placement.rule .default) ∧
      ∀ pair ∈ scatteredPlacements, pair.1.slot.labels = pair.2.slot.labels ∧
        pair.1.slot.selector = pair.2.slot.selector ∧
        Cascade.supersedes pair.2.declaration.prop pair.1.declaration.prop = true := by
  have hplain : (freshCompiler.compile scatteredTree).2.rules =
      .ok (freshCompiler.trace scatteredTree).rules := compile_rules_eq_ok_iff.2 ⟨rfl, rfl⟩
  have hok := compile_sorting_ok hplain true
  have hplacements : (freshCompiler.sorting true).placements scatteredTree =
      scatteredPlacements.flatMap fun pair => [pair.1, pair.2] := by decide +kernel
  refine ⟨_, hok, ?_, by decide +kernel⟩
  rw [← hplacements]
  exact rules_of_ok hok

end Compiler

end StyleSlots
