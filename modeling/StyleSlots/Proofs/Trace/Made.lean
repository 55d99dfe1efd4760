import StyleSlots.Proofs.Trace.Places

/-! # What is made at the places of a tree

    What a tree makes can be listed in two ways: by its placements, which a
    walk comes to with the context that it carries along, or by its places,
    each of which tells by itself whether something is made there.

    - **One place**: a declaration is placed once for each selector of the
      rule directly around it, and once where there is none. The rules of
      the place are those of its placements.
    - **All places**: the walk comes to the places that are made, one after
      the other in document order.
    - **Main statements**: `Placement.ofTree_eq_made`, the placements of a
      tree are those of its made places; `Compiler.rules_of_ok`, a
      compilation that is not refused makes exactly the rules of the
      placements of its tree. -/

namespace StyleSlots

/-- To collect from those elements only that meet a condition, the others may
    be left out first. -/
theorem flatMap_eq_flatMap_filter {α β : Type} {f g : α → List β} {q : α → Bool}
    (h : ∀ a, f a = if q a = true then g a else []) (l : List α) :
    l.flatMap f = (l.filter q).flatMap g := by
  induction l with
  | nil => rfl
  | cons a l ih =>
    rw [List.flatMap_cons, h a, ih]
    by_cases ha : q a = true
    · rw [if_pos ha, List.filter_cons_of_pos ha, List.flatMap_cons]
    · rw [if_neg ha, List.filter_cons_of_neg ha, List.nil_append]

namespace Place

variable {scheme : Scheme}

/-! ## One place -/

/-- The placements of a place: those of its declaration, if it is made. -/
def placements (scheme : Scheme) (p : Place) : List Placement :=
  match p.node with
  | .declaration d =>
    if p.inScope scheme then [.direct p.context d]
    else if p.inRule scheme then Placement.fanOut p.context p.selectors d
    else []
  | _ => []

theorem not_made_of_shut {p : Place} (h : Shut scheme p.around) : p.made scheme = false := by
  have hscope : p.inScope scheme = false := h.scope
  have hrule : p.inRule scheme = false := h.rule
  rw [made, hscope, hrule, Bool.or_self, Bool.and_false]

theorem placements_of_not_made {p : Place} (h : p.made scheme = false) :
    p.placements scheme = [] := by
  cases hnode : p.node with
  | declaration d =>
    obtain ⟨hscope, hrule⟩ : p.inScope scheme = false ∧ p.inRule scheme = false := by
      simpa [made, hnode, Node.isDeclaration] using h
    simp [placements, hnode, hscope, hrule]
  | _ => simp [placements, hnode]

/-- The rules of a place that is made are those of its placements. -/
theorem rules_eq_map_placements {p : Place} (h : p.made scheme = true) :
    p.rules scheme = (p.placements scheme).map (Placement.rule scheme) := by
  cases hnode : p.node with
  | declaration d =>
    unfold rules placements normalSelectors
    rw [hnode]
    by_cases hscope : p.inScope scheme = true
    · simp only [hscope, if_true, selectors_of_inScope hscope]
      rfl
    · have hrule : p.inRule scheme = true := by
        simpa [made, hnode, hscope, Node.isDeclaration] using h
      simp only [hscope, hrule, if_true, Placement.fanOut]
      -- a rule without selectors is for the element itself
      cases p.selectors with
      | nil => rfl
      | cons first more => simp [Placement.rule, AtomicRule.ofDeclaration, ruleFor]
  | _ => simp [made, hnode, Node.isDeclaration] at h

theorem rules_events (p : Place) : (p.events scheme).filterMap Event.rule? =
    if p.made scheme = true then p.rules scheme else [] := by
  cases hnode : p.node with
  | declaration d =>
    by_cases hmade : p.made scheme = true
    · simp [events, hnode, hmade, List.filterMap_map, Function.comp_def, Event.rule?]
    · simp [events, hnode, hmade]
  | _ =>
    have hmade : p.made scheme = false := by simp [made, hnode, Node.isDeclaration]
    simp only [events, hnode, hmade]
    grind [Event.rule?]

end Place

theorem Trace.rules_of_places {scheme : Scheme} {ps : List Place} {refusal : Option Refusal} :
    rules ⟨ps.flatMap (Place.events scheme), refusal⟩ =
      (ps.filter (Place.made scheme)).flatMap (Place.rules scheme) := by
  rw [rules, List.filterMap_flatMap]
  exact flatMap_eq_flatMap_filter Place.rules_events ps

/-! ## All places -/

namespace Placement

variable {scheme : Scheme} {path : List Nat} {outer : List Node}

theorem flatMap_placements_of_shut {node : Node} (h : Shut scheme (outer ++ [node]))
    (ps : List Place) : (ps.map (Place.below path (outer ++ [node]))).flatMap
      (Place.placements scheme) = [] := by
  rw [List.flatMap_eq_nil_iff]
  intro p hp
  obtain ⟨q, _, rfl⟩ := List.mem_map.1 hp
  exact Place.placements_of_not_made (Place.not_made_of_shut (h.append q.around))

/-- The declarations of a reached rule are placed, and nothing that is
    further inside. -/
theorem ofRule_eq_placements (hscope : opensScope scheme outer = true) (selectors : List Text)
    (all : List Node) (source : Option Position) (i : Nat) (nodes : List Node) :
    ofRule (outer.filterMap Node.head?) selectors nodes =
      ((placesFrom i nodes).map (Place.below path (outer ++ [.rule selectors all source]))).flatMap
        (Place.placements scheme) := by
  have hrule : opensRule scheme (outer ++ [.rule selectors all source]) = true := by
    rw [opensRule_concat, hscope]
    rfl
  have hclosed := opensScope_of_opensRule hrule
  induction nodes generalizing i with
  | nil => rfl
  | cons node nodes ih =>
    rw [placesFrom, List.map_append, List.flatMap_append, ← ih, map_below_placesAt,
      List.flatMap_cons, flatMap_placements_of_shut (.concat hclosed node), List.append_nil]
    cases node with
    | declaration d =>
      have hcontext := Node.filterMap_head?_concat_rule outer selectors all source
      have hplaced : ((Place.here i (.declaration d)).below path
          (outer ++ [.rule selectors all source])).placements scheme =
            fanOut (outer.filterMap Node.head?) selectors d := by
        simp only [Place.placements, Place.node_below, Place.node_here, Place.inScope,
          Place.inRule, Place.around_below, Place.around_here, List.append_nil, hclosed, hrule,
          Place.context_below, Place.context_here, hcontext, Place.selectors,
          List.getLast?_concat]
        rfl
      rw [hplaced]
      rfl
    | _ => rfl

/-- The nodes of a scope are placed as their places tell, if this is so for
    each of them. -/
theorem ofNodes_eq_placements_of_each {context : List AtRule} {nodes : List Node}
    (h : ∀ node ∈ nodes, ∀ i, ofNode context node =
      ((placesAt i node).map (Place.below path outer)).flatMap (Place.placements scheme))
    (i : Nat) : ofNodes context nodes =
      ((placesFrom i nodes).map (Place.below path outer)).flatMap (Place.placements scheme) := by
  induction nodes generalizing i with
  | nil => rfl
  | cons node nodes ih =>
    rw [ofNodes, placesFrom, List.map_append, List.flatMap_append,
      ← h node (List.mem_cons_self ..), ← ih fun n hn => h n (List.mem_cons_of_mem _ hn)]

/-- A node of a scope is placed as its places tell. At the top level it has to
    be one that is entered. -/
theorem ofNode_eq_placements (node : Node) : ∀ {path : List Nat} {outer : List Node},
    opensScope scheme outer = true → (! outer.isEmpty || entered scheme node) = true → ∀ i,
      ofNode (outer.filterMap Node.head?) node =
        ((placesAt i node).map (Place.below path outer)).flatMap (Place.placements scheme) := by
  induction node using Node.inside_induction with
  | step node ih =>
    intro path outer hscope hentered i
    rw [map_below_placesAt, List.flatMap_cons]
    cases node with
    | declaration d =>
      have hplaced : ((Place.here i (.declaration d)).below path outer).placements scheme =
          [direct (outer.filterMap Node.head?) d] := by
        simp [Place.placements, Place.inScope, Place.context, Place.here, Place.below, hscope]
      rw [hplaced]
      rfl
    | rule selectors nodes source =>
      exact ofRule_eq_placements hscope selectors nodes source 0 nodes
    | block head nodes source =>
      -- inside a scope any block opens another one
      have hinner : opensScope scheme (outer ++ [.block head nodes source]) = true := by
        rw [opensScope_concat, hscope, hentered]
        rfl
      rw [ofNode, ← Node.filterMap_head?_concat_block outer head nodes source]
      exact ofNodes_eq_placements_of_each (fun n hn => ih n hn hinner (by simp)) 0
    | comment text source => rfl
    | other kind text source => rfl
    | foreign value => rfl

/-- Inside a top-level node that is not entered nothing is made. -/
theorem flatMap_placements_of_not_entered {node : Node} (h : entered scheme node = false)
    (i : Nat) : (placesAt i node).flatMap (Place.placements scheme) = [] := by
  cases node with
  | block head nodes source =>
    have hshut : Shut scheme ([] ++ [.block head nodes source]) :=
      ⟨by simp [opensScope, h], rfl⟩
    rw [placesAt_eq, List.flatMap_cons]
    exact flatMap_placements_of_shut hshut _
  | _ => cases h

/-- The placements of a tree are those of its made places, in document
    order. -/
theorem ofTree_eq_made (scheme : Scheme) (tree : List Node) : ofTree scheme tree =
    ((places tree).filter (Place.made scheme)).flatMap (Place.placements scheme) := by
  have hmade : ∀ p : Place, p.placements scheme =
      if p.made scheme = true then p.placements scheme else [] := by
    intro p
    split
    · rfl
    · next hnot => exact Place.placements_of_not_made (Bool.not_eq_true _ ▸ hnot)
  rw [← flatMap_eq_flatMap_filter hmade]
  have hfrom : ∀ i, ofNodes [] (tree.filter (entered scheme)) =
      (placesFrom i tree).flatMap (Place.placements scheme) := by
    induction tree with
    | nil => exact fun _ => rfl
    | cons node more ih =>
      intro i
      rw [placesFrom, List.flatMap_append, ← ih]
      by_cases hentered : entered scheme node = true
      · have hbelow : (placesAt i node).map (Place.below [] []) = placesAt i node := List.map_id _
        have htop : opensScope scheme [] = true := rfl
        rw [List.filter_cons_of_pos hentered, ofNodes, ← hbelow,
          ← ofNode_eq_placements node htop (by simpa using hentered) i]
        rfl
      · rw [List.filter_cons_of_neg hentered,
          flatMap_placements_of_not_entered (Bool.not_eq_true _ ▸ hentered), List.nil_append]
  exact hfrom 0

end Placement

/-! ## Compilations -/

namespace Compiler

variable {c : Compiler} {nodes : List Node} {rules : List AtomicRule}

/-- A compilation that is not refused has met no nested rule, and everything
    has happened. -/
theorem trace_of_ok (h : (c.compile nodes).2.rules = .ok rules) :
    (∀ p : Place, p.In (c.prepare nodes) → p.nested c.scheme = false) ∧
      c.trace nodes = ⟨(places (c.prepare nodes)).flatMap (Place.events c.scheme), none⟩ := by
  rcases Trace.ofTree_cases c.scheme (c.prepare nodes) with
    ⟨hnone, htrace⟩ | ⟨before, p, after, _, _, hp, htrace⟩
  · exact ⟨fun p hp => hnone p (mem_places_iff.2 hp), htrace⟩
  · obtain ⟨hrefusal, -⟩ := compile_rules_eq_ok_iff.1 h
    obtain ⟨selectors, contents, source, hnode⟩ := Place.exists_rule_of_nested hp
    rw [trace, htrace, hnode] at hrefusal
    cases hrefusal

/-- The rules of a compilation that is not refused are those of its made
    places. -/
theorem rules_eq_made (h : (c.compile nodes).2.rules = .ok rules) : rules =
    ((places (c.prepare nodes)).filter (Place.made c.scheme)).flatMap (Place.rules c.scheme) := by
  obtain ⟨-, htrace⟩ := trace_of_ok h
  obtain ⟨-, hrules⟩ := compile_rules_eq_ok_iff.1 h
  rw [← hrules, htrace, Trace.rules_of_places]

/-- The rules of a compilation that is not refused. -/
theorem rules_of_ok (h : (c.compile nodes).2.rules = .ok rules) :
    rules = (c.placements nodes).map (Placement.rule c.scheme) := by
  rw [rules_eq_made h, placements, Placement.ofTree_eq_made, List.map_flatMap]
  refine List.flatMap_congr ?_
  intro p hp
  exact Place.rules_eq_map_placements (List.mem_filter.1 hp).2

end Compiler

end StyleSlots
