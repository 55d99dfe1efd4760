import StyleSlots.Proofs.Cascade.Refusal
import StyleSlots.Proofs.Node.Places
import StyleSlots.Proofs.Trace.Placements

/-! # What happens where in a tree

    A trace is made on a walk that carries a context along. What happens at
    a place can be told from the place alone:

    - **Scopes**: at the top level, or inside blocks only, of which the
      outermost one is supported. A rule of a scope is reached.
    - **Made**: the declarations of scopes and of reached rules.
    - **Dropped, nested**: the blocks and the rules that stand directly in a
      reached rule.
    - **Carried**: the top-level blocks that are not supported, and the
      top-level statements that have a text.
    - **Main statement**: `ofTree_eq_along`, the trace of a tree is made of
      what happens at its places, one after the other in document order. -/

namespace StyleSlots

namespace Node

/-- Whether a node is an at-rule block. -/
def isBlock : Node → Bool
  | block .. => true
  | _ => false

/-- Whether a node is a rule. -/
def isRule : Node → Bool
  | rule .. => true
  | _ => false

/-- The head of a block. -/
def head? : Node → Option AtRule
  | block head _ _ => some head
  | _ => none

/-- The selectors of a rule. -/
def selectors : Node → List Text
  | rule selectors _ _ => selectors
  | _ => []

/-- Whether a top-level node goes into the style sheet as it is. -/
def isCarried (scheme : Scheme) : Node → Bool
  | block head _ _ => ! scheme.supported.contains head.name
  | other _ text _ => ! text.isEmpty
  | _ => false

theorem filterMap_head?_concat_rule (around : List Node) (selectors : List Text)
    (nodes : List Node) (source : Option Position) :
    (around ++ [rule selectors nodes source]).filterMap head? = around.filterMap head? := by
  simp [head?]

theorem filterMap_head?_concat_block (around : List Node) (head : AtRule) (nodes : List Node)
    (source : Option Position) : (around ++ [block head nodes source]).filterMap head? =
      around.filterMap head? ++ [head] := by
  simp [head?]

theorem isBlock_of_isRule {node : Node} (h : node.isRule = true) : node.isBlock = false := by
  cases node <;> first | rfl | cases h

end Node

/-! ## Standing -/

/-- Whether nodes, each inside the one before, lead to a scope: all of them
    are blocks, and the name of the outermost one is supported. -/
def opensScope (scheme : Scheme) (around : List Node) : Bool :=
  around.all Node.isBlock && around.head?.all (Placement.entered scheme)

/-- Whether nodes, each inside the one before, lead to the inside of a rule
    of a scope. -/
def opensRule (scheme : Scheme) (around : List Node) : Bool :=
  around.getLast?.any Node.isRule && opensScope scheme around.dropLast

section Standing

variable {scheme : Scheme} {around inner : List Node} {node : Node}

theorem opensScope_concat : opensScope scheme (around ++ [node]) =
    (opensScope scheme around && node.isBlock &&
      (! around.isEmpty || Placement.entered scheme node)) := by
  cases around with
  | nil => simp [opensScope]
  | cons first more =>
    simp [opensScope]
    grind

theorem opensRule_concat : opensRule scheme (around ++ [node]) =
    (node.isRule && opensScope scheme around) := by
  simp [opensRule]

/-- What opens a rule ends with a rule of a scope. -/
theorem exists_of_opensRule (h : opensRule scheme around = true) : ∃ front rule,
    around = front ++ [rule] ∧ rule.isRule = true ∧ opensScope scheme front = true := by
  rcases List.eq_nil_or_concat around with rfl | ⟨front, rule, rfl⟩
  · cases h
  · rw [List.concat_eq_append, opensRule_concat, Bool.and_eq_true] at h
    exact ⟨front, rule, List.concat_eq_append .., h⟩

theorem opensScope_of_append (h : opensScope scheme (around ++ inner) = true) :
    opensScope scheme around = true := by
  cases around with
  | nil => rfl
  | cons first more =>
    simp only [opensScope, List.cons_append, List.head?_cons] at h ⊢
    grind

/-- Nodes, each inside the one before, that lead neither to a scope nor into
    a rule of one. Nothing happens inside them. -/
structure Shut (scheme : Scheme) (around : List Node) : Prop where
  scope : opensScope scheme around = false
  rule  : opensRule scheme around = false

namespace Shut

theorem append (h : Shut scheme around) (inner : List Node) : Shut scheme (around ++ inner) := by
  have hscope : ∀ inner, opensScope scheme (around ++ inner) = false := by
    intro inner
    by_contra hopens
    have habove := opensScope_of_append (Bool.not_eq_false _ ▸ hopens)
    rw [h.scope] at habove
    cases habove
  refine ⟨hscope inner, ?_⟩
  rcases List.eq_nil_or_concat inner with rfl | ⟨front, last, rfl⟩
  · rw [List.append_nil]
    exact h.rule
  · rw [List.concat_eq_append, ← List.append_assoc, opensRule_concat, hscope front,
      Bool.and_false]

/-- The nodes directly in what opens no scope lead nowhere. -/
theorem concat (h : opensScope scheme around = false) (node : Node) :
    Shut scheme (around ++ [node]) where
  scope := by rw [opensScope_concat, h, Bool.false_and, Bool.false_and]
  rule := by rw [opensRule_concat, h, Bool.and_false]

end Shut

/-- What opens a rule opens no scope. -/
theorem opensScope_of_opensRule (h : opensRule scheme around = true) :
    opensScope scheme around = false := by
  obtain ⟨front, rule, rfl, hrule, -⟩ := exists_of_opensRule h
  rw [opensScope_concat, Node.isBlock_of_isRule hrule, Bool.and_false, Bool.false_and]

end Standing

namespace Place

/-- Whether a place is in a scope that is compiled. -/
def inScope (scheme : Scheme) (p : Place) : Bool := opensScope scheme p.around

/-- Whether a place is directly in a rule of such a scope. -/
def inRule (scheme : Scheme) (p : Place) : Bool := opensRule scheme p.around

/-- Whether a place is at the top level. -/
def atTop (p : Place) : Bool := p.around.isEmpty

/-! ## What happens at a place -/

/-- Whether atomic rules are made for a place. -/
def made (scheme : Scheme) (p : Place) : Bool :=
  p.node.isDeclaration && (p.inScope scheme || p.inRule scheme)

/-- Whether the block at a place is left out. -/
def dropped (scheme : Scheme) (p : Place) : Bool := p.node.isBlock && p.inRule scheme

/-- Whether the node at a place goes into the style sheet as it is. -/
def carried (scheme : Scheme) (p : Place) : Bool := p.atTop && p.node.isCarried scheme

/-- Whether the rule at a place stands directly in another one. -/
def nested (scheme : Scheme) (p : Place) : Bool := p.node.isRule && p.inRule scheme

/-- The heads of the blocks around a place, outermost first. -/
def context (p : Place) : List AtRule := p.around.filterMap Node.head?

/-- The selectors of the rule directly around a place, if there is one. -/
def selectors (p : Place) : List Text := p.around.getLast?.elim [] Node.selectors

/-- The normal selectors of a place: those of its rule, or the element itself
    where there is no rule or one without selectors. -/
def normalSelectors (p : Place) : List Text :=
  if p.selectors.isEmpty then [[Selector.selfReference]] else p.selectors.map Selector.normalize

/-- The atomic rule of a declaration at a place for a normal selector. -/
def ruleFor (scheme : Scheme) (p : Place) (d : Declaration) (normal : Text) : AtomicRule where
  className   := ClassName.encode scheme (p.context.map AtRule.label) normal d
  context     := p.context
  selector    := Selector.scopeTo
    (ClassName.encode scheme (p.context.map AtRule.label) normal d) normal
  declaration := d

/-- The atomic rules of a place: one for each selector of a declaration. -/
def rules (scheme : Scheme) (p : Place) : List AtomicRule :=
  match p.node with
  | .declaration d => p.normalSelectors.map (p.ruleFor scheme d)
  | _ => []

/-- What happens at a place. -/
def events (scheme : Scheme) (p : Place) : List Event :=
  match p.node with
  | .declaration _ => if p.made scheme then (p.rules scheme).map .made else []
  | .block head _ _ =>
    if p.carried scheme then [.carried p.node]
    else if p.dropped scheme then [.droppedBlock head p.selectors] else []
  | .other .. =>
    if p.carried scheme then [.carried p.node]
    else if p.atTop then [.droppedNode p.node] else []
  | .foreign _ => if p.atTop then [.droppedNode p.node] else []
  | _ => []

/-- Why a place is refused. -/
def refusal? (scheme : Scheme) (p : Place) : Option Refusal :=
  if p.nested scheme then Trace.nested? p.node else none

/-- What a place adds to a trace. -/
def trace (scheme : Scheme) (p : Place) : Trace := ⟨p.events scheme, p.refusal? scheme⟩

variable {scheme : Scheme} {p : Place}

theorem exists_rule_of_nested (h : p.nested scheme = true) : ∃ selectors nodes source,
    p.node = .rule selectors nodes source := by
  rw [nested, Bool.and_eq_true] at h
  cases hnode : p.node with
  | rule selectors nodes source => exact ⟨selectors, nodes, source, rfl⟩
  | _ => simp [hnode, Node.isRule] at h

theorem context_here (i : Nat) (node : Node) : (here i node).context = [] := rfl

theorem context_below (path : List Nat) (outer : List Node) (p : Place) :
    (p.below path outer).context = outer.filterMap Node.head? ++ p.context := by
  simp [context]

theorem trace_of_shut (htop : p.atTop = false) (hshut : Shut scheme p.around) :
    p.trace scheme = .empty := by
  have hscope : p.inScope scheme = false := hshut.scope
  have hrule : p.inRule scheme = false := hshut.rule
  have hevents : p.events scheme = [] := by
    unfold events
    cases p.node <;> simp [made, carried, dropped, htop, hscope, hrule]
  have hrefusal : p.refusal? scheme = none := by simp [refusal?, nested, hrule]
  rw [trace, hevents, hrefusal]
  rfl

/-- A declaration that is made adds what the walk adds for it. -/
theorem trace_declaration {d : Declaration} (hnode : p.node = .declaration d)
    (hmade : p.made scheme = true) :
    p.trace scheme = Trace.ofDeclaration scheme p.context p.selectors d := by
  have hrefusal : p.refusal? scheme = none := by simp [refusal?, nested, hnode, Node.isRule]
  have hevents : p.events scheme = (p.normalSelectors.map (p.ruleFor scheme d)).map .made := by
    rw [events, hnode]
    simp only [hmade, if_true, rules, hnode]
  rw [trace, hevents, hrefusal, normalSelectors, Trace.ofDeclaration, Trace.ofEvents]
  cases p.selectors with
  | nil => rfl
  | cons first more => simp [AtomicRule.ofDeclaration, ruleFor]

/-- At the top level declarations count, and all nodes that are carried or
    left out. -/
theorem trace_of_atTop (htop : p.atTop = true) :
    p.trace scheme =
      match p.node with
      | .declaration d => Trace.ofDeclaration scheme [] [] d
      | .block .. =>
        if p.node.isCarried scheme then .ofEvents [.carried p.node] else .empty
      | .other .. =>
        if p.node.isCarried scheme then .ofEvents [.carried p.node]
        else .ofEvents [.droppedNode p.node]
      | .foreign _ => .ofEvents [.droppedNode p.node]
      | _ => .empty := by
  obtain ⟨path, around, node⟩ := p
  obtain rfl : around = [] := List.isEmpty_iff.1 htop
  have hrule : inRule scheme ⟨path, [], node⟩ = false := rfl
  cases node with
  | declaration d => exact trace_declaration rfl rfl
  | block head nodes source =>
    by_cases hcarried : (Node.block head nodes source).isCarried scheme = true <;>
      simp [trace, events, refusal?, carried, dropped, nested, atTop, hrule, hcarried,
        Trace.empty, Trace.ofEvents]
  | other kind text source =>
    by_cases hcarried : (Node.other kind text source).isCarried scheme = true <;>
      simp [trace, events, refusal?, carried, nested, atTop, hrule, hcarried, Trace.ofEvents]
  | _ => rfl

/-- There is no rule directly around a place in a scope. -/
theorem selectors_of_inScope (h : p.inScope scheme = true) : p.selectors = [] := by
  rcases List.eq_nil_or_concat p.around with hnil | ⟨front, last, hlast⟩
  · rw [selectors, hnil]
    rfl
  · rw [List.concat_eq_append] at hlast
    rw [inScope, hlast, opensScope_concat, Bool.and_eq_true, Bool.and_eq_true] at h
    obtain ⟨⟨-, hblock⟩, -⟩ := h
    rw [selectors, hlast, List.getLast?_concat]
    cases last <;> first | rfl | cases hblock

theorem inRule_of_inScope (h : p.inScope scheme = true) : p.inRule scheme = false := by
  by_contra hrule
  have hscope : p.inScope scheme = false :=
    opensScope_of_opensRule (Bool.not_eq_false _ ▸ hrule)
  rw [hscope] at h
  cases h

/-- In a scope below the top level only declarations count. -/
theorem trace_of_inScope (hscope : p.inScope scheme = true) (htop : p.atTop = false) :
    p.trace scheme =
      match p.node with
      | .declaration d => Trace.ofDeclaration scheme p.context [] d
      | _ => .empty := by
  have hrule := inRule_of_inScope hscope
  cases hnode : p.node with
  | declaration d =>
    rw [trace_declaration hnode (by simp [made, hnode, hscope, Node.isDeclaration]),
      selectors_of_inScope hscope]
  | _ =>
    simp [trace, events, refusal?, carried, dropped, nested, hnode, htop, hrule, Trace.empty]

/-- In a reached rule declarations, blocks and rules count. -/
theorem trace_of_inRule (hrule : p.inRule scheme = true) :
    p.trace scheme =
      match p.node with
      | .declaration d => Trace.ofDeclaration scheme p.context p.selectors d
      | .rule inner _ source => .refuse (.nestedRule (Selector.joinList inner) source)
      | .block head _ _ => .ofEvents [.droppedBlock head p.selectors]
      | _ => .empty := by
  have htop : p.atTop = false := by
    obtain ⟨front, rule, haround, -⟩ := exists_of_opensRule hrule
    simp [atTop, haround]
  cases hnode : p.node with
  | declaration d =>
    exact trace_declaration hnode (by simp [made, hnode, hrule, Node.isDeclaration])
  | _ =>
    simp [trace, events, refusal?, carried, dropped, nested, hnode, htop, hrule, Trace.empty,
      Trace.refuse, Trace.ofEvents, Trace.nested?, Node.isRule, Node.isBlock]

end Place

/-! ## One place after the other -/

namespace Trace

theorem empty_andThen (t : Trace) : empty.andThen t = t := rfl

theorem andThen_empty (t : Trace) : t.andThen empty = t := by
  obtain ⟨events, refusal⟩ := t
  cases refusal with
  | none => simp [andThen, empty]
  | some e => rfl

theorem andThen_assoc (s t u : Trace) : (s.andThen t).andThen u = s.andThen (t.andThen u) := by
  obtain ⟨events, refusal⟩ := s
  obtain ⟨events', refusal'⟩ := t
  cases refusal <;> cases refusal' <;> simp [andThen]

theorem refuse_andThen (e : Refusal) (t : Trace) : (refuse e).andThen t = refuse e := rfl

/-- What happens at places, one after the other. -/
def along (scheme : Scheme) (ps : List Place) : Trace := concat (ps.map (Place.trace scheme))

variable {scheme : Scheme}

theorem along_cons (p : Place) (ps : List Place) :
    along scheme (p :: ps) = (p.trace scheme).andThen (along scheme ps) := rfl

theorem along_append (ps qs : List Place) :
    along scheme (ps ++ qs) = (along scheme ps).andThen (along scheme qs) := by
  induction ps with
  | nil => rfl
  | cons p ps ih => rw [List.cons_append, along_cons, along_cons, ih, andThen_assoc]

theorem along_eq_empty {ps : List Place} (h : ∀ p ∈ ps, p.trace scheme = empty) :
    along scheme ps = empty := by
  induction ps with
  | nil => rfl
  | cons p ps ih =>
    rw [along_cons, h p (List.mem_cons_self ..), ih fun q hq => h q (List.mem_cons_of_mem _ hq)]
    rfl

/-! ## Walks -/

section Walks

variable {path : List Nat} {outer : List Node}

theorem along_of_shut {node : Node} (h : Shut scheme (outer ++ [node])) (ps : List Place) :
    along scheme (ps.map (Place.below path (outer ++ [node]))) = empty := by
  apply along_eq_empty
  intro p hp
  obtain ⟨q, _, rfl⟩ := List.mem_map.1 hp
  exact Place.trace_of_shut (by simp [Place.atTop]) (h.append q.around)

/-- What happens at the places of a node: first at its own one, and then
    further inside. -/
theorem along_placesAt (i : Nat) (node : Node) :
    along scheme ((placesAt i node).map (Place.below path outer)) =
      (((Place.here i node).below path outer).trace scheme).andThen (along scheme
        ((places node.inside).map (Place.below (path ++ [i]) (outer ++ [node])))) := by
  rw [map_below_placesAt, along_cons]

/-- Nothing happens further inside the nodes of a rule. -/
theorem along_placesAt_rule {rule : Node} (hrule : rule.isBlock = false) (i : Nat) (node : Node) :
    along scheme ((placesAt i node).map (Place.below path (outer ++ [rule]))) =
      ((Place.here i node).below path (outer ++ [rule])).trace scheme := by
  have hshut : opensScope scheme (outer ++ [rule]) = false := by
    rw [opensScope_concat, hrule, Bool.and_false, Bool.false_and]
  rw [along_placesAt, along_of_shut (.concat hshut node), andThen_empty]

/-- What happens in a reached rule. -/
theorem ofRule_eq_along (hscope : opensScope scheme outer = true) (selectors : List Text)
    (all : List Node) (source : Option Position) (i : Nat) (nodes : List Node) :
    ofRule scheme (outer.filterMap Node.head?) selectors nodes =
      along scheme ((placesFrom i nodes).map
        (Place.below path (outer ++ [.rule selectors all source]))) := by
  have hrule : opensRule scheme (outer ++ [.rule selectors all source]) = true := by
    rw [opensRule_concat, hscope]
    rfl
  have hselectors : ∀ (i : Nat) (node : Node), ((Place.here i node).below path
      (outer ++ [.rule selectors all source])).selectors = selectors := by
    intro i node
    simp [Place.selectors, Place.here, Node.selectors]
  induction nodes generalizing i with
  | nil => rfl
  | cons node nodes ih =>
    have hin : ((Place.here i node).below path (outer ++ [.rule selectors all source])).inRule
        scheme = true := by simpa [Place.inRule, Place.here] using hrule
    rw [placesFrom, List.map_append, along_append, along_placesAt_rule rfl, ← ih,
      Place.trace_of_inRule hin, hselectors]
    cases node with
    | declaration d =>
      simp only [Place.node_below, Place.node_here, Place.context_below, Place.context_here,
        Node.filterMap_head?_concat_rule, List.append_nil, ofRule]
    | _ => simp only [Place.node_below, Place.node_here, ofRule, refuse_andThen, empty_andThen]

/-- What happens at the nodes of a scope inside a block is what happens at
    their places, if this is so for each of them. -/
theorem ofNodes_eq_along_of_each {context : List AtRule} {nodes : List Node}
    (h : ∀ node ∈ nodes, ∀ i, ofNode scheme context node =
      along scheme ((placesAt i node).map (Place.below path outer))) (i : Nat) :
    ofNodes scheme context nodes =
      along scheme ((placesFrom i nodes).map (Place.below path outer)) := by
  induction nodes generalizing i with
  | nil => rfl
  | cons node nodes ih =>
    rw [ofNodes, placesFrom, List.map_append, along_append, ← h node (List.mem_cons_self ..),
      ← ih fun n hn => h n (List.mem_cons_of_mem _ hn)]

/-- What happens at a node of a scope inside a block. -/
theorem ofNode_eq_along (node : Node) : ∀ {path : List Nat} {outer : List Node},
    opensScope scheme outer = true → outer ≠ [] → ∀ i,
      ofNode scheme (outer.filterMap Node.head?) node =
        along scheme ((placesAt i node).map (Place.below path outer)) := by
  induction node using Node.inside_induction with
  | step node ih =>
    intro path outer hscope hne i
    have hin : ((Place.here i node).below path outer).inScope scheme = true := by
      simpa [Place.inScope] using hscope
    have htop : ((Place.here i node).below path outer).atTop = false := by
      simpa [Place.atTop] using hne
    rw [along_placesAt, Place.trace_of_inScope hin htop]
    cases node with
    | declaration d =>
      simp only [Place.node_below, Place.node_here, Place.context_below, Place.context_here,
        List.append_nil, ofNode]
      exact (andThen_empty _).symm
    | rule selectors nodes source => exact ofRule_eq_along hscope selectors nodes source 0 nodes
    | block head nodes source =>
      have hinner : opensScope scheme (outer ++ [.block head nodes source]) = true := by
        rw [opensScope_concat, hscope]
        simp [hne, Node.isBlock]
      rw [ofNode, ← Node.filterMap_head?_concat_block outer head nodes source]
      exact ofNodes_eq_along_of_each (fun n hn => ih n hn hinner (by simp)) 0
    | comment text source => rfl
    | other kind text source => rfl
    | foreign value => rfl

/-- What happens at a top-level node. -/
theorem ofTopNode_eq_along (i : Nat) (node : Node) :
    ofTopNode scheme node = along scheme (placesAt i node) := by
  have hbelow : (placesAt i node).map (Place.below [] []) = placesAt i node := List.map_id _
  rw [← hbelow, along_placesAt, Place.trace_of_atTop rfl]
  cases node with
  | declaration d => exact (andThen_empty _).symm
  | rule selectors nodes source =>
    have htop : opensScope scheme [] = true := rfl
    exact ofRule_eq_along htop selectors nodes source 0 nodes
  | block head nodes source =>
    have hopens : opensScope scheme [.block head nodes source] =
        scheme.supported.contains head.name := by simp [opensScope, Node.isBlock, Placement.entered]
    show _ = (if (Node.block head nodes source).isCarried scheme = true then
      ofEvents [.carried (.block head nodes source)] else empty).andThen _
    rw [ofTopNode, Node.isCarried]
    by_cases hsupported : scheme.supported.contains head.name = true
    · rw [hsupported] at hopens
      rw [if_pos hsupported, if_neg (by simpa using hsupported)]
      exact ofNodes_eq_along_of_each (fun n _ => ofNode_eq_along n hopens (List.cons_ne_nil _ _)) 0
    · rw [Bool.not_eq_true] at hsupported
      rw [hsupported] at hopens
      have hshut : Shut scheme ([] ++ [.block head nodes source]) := ⟨hopens, rfl⟩
      rw [if_neg (by simpa using hsupported), if_pos (by simpa using hsupported),
        along_of_shut hshut]
      exact (andThen_empty _).symm
  | comment text source => rfl
  | other kind text source =>
    show _ = (if (Node.other kind text source).isCarried scheme = true then
      ofEvents [.carried (.other kind text source)]
      else ofEvents [.droppedNode (.other kind text source)]).andThen empty
    rw [ofTopNode, Node.isCarried, andThen_empty]
    by_cases htext : text.isEmpty = true
    · rw [if_pos htext, if_neg (by simpa using htext)]
    · rw [if_neg htext, if_pos (by simpa using htext)]
  | foreign value => rfl

/-- The trace of a tree is what happens at its places, in document order. -/
theorem ofTree_eq_along (scheme : Scheme) (tree : List Node) :
    ofTree scheme tree = along scheme (places tree) := by
  have hfrom : ∀ i, concat (tree.map (ofTopNode scheme)) = along scheme (placesFrom i tree) := by
    induction tree with
    | nil => exact fun _ => rfl
    | cons node more ih =>
      intro i
      rw [placesFrom, along_append, ← ih, ← ofTopNode_eq_along]
      rfl
  exact hfrom 0

end Walks

/-! ## Up to the first nested rule -/

/-- Without a nested rule everything happens. -/
theorem along_of_not_nested {ps : List Place} (h : ∀ p ∈ ps, p.nested scheme = false) :
    along scheme ps = ⟨ps.flatMap (Place.events scheme), none⟩ := by
  induction ps with
  | nil => rfl
  | cons p ps ih =>
    have hrefusal : p.refusal? scheme = none := by
      simp [Place.refusal?, h p (List.mem_cons_self ..)]
    rw [along_cons, ih fun q hq => h q (List.mem_cons_of_mem _ hq), Place.trace, hrefusal]
    rfl

/-- At the first nested rule everything before it has happened, and nothing
    else does. -/
theorem along_of_nested {before after : List Place} {p : Place}
    (hbefore : ∀ q ∈ before, q.nested scheme = false) (hp : p.nested scheme = true) :
    along scheme (before ++ p :: after) =
      ⟨before.flatMap (Place.events scheme), nested? p.node⟩ := by
  obtain ⟨selectors, nodes, source, hnode⟩ := Place.exists_rule_of_nested hp
  have hrefusal : p.refusal? scheme = nested? p.node := by rw [Place.refusal?, if_pos hp]
  rw [along_append, along_of_not_nested hbefore, along_cons, Place.trace, hrefusal]
  simp [andThen, nested?, Place.events, hnode]

/-- A tree is walked to its end, or up to the first nested rule. -/
theorem ofTree_cases (scheme : Scheme) (tree : List Node) :
    (∀ p ∈ places tree, p.nested scheme = false) ∧
        ofTree scheme tree = ⟨(places tree).flatMap (Place.events scheme), none⟩ ∨
      ∃ before p after, places tree = before ++ p :: after ∧
        (∀ q ∈ before, q.nested scheme = false) ∧ p.nested scheme = true ∧
        ofTree scheme tree = ⟨before.flatMap (Place.events scheme), nested? p.node⟩ := by
  cases hfind : (places tree).find? (Place.nested scheme) with
  | none =>
    left
    have hnone : ∀ p ∈ places tree, p.nested scheme = false := by
      simpa using List.find?_eq_none.1 hfind
    exact ⟨hnone, by rw [ofTree_eq_along, along_of_not_nested hnone]⟩
  | some p =>
    right
    obtain ⟨hp, before, after, hsplit, hbefore⟩ := List.find?_eq_some_iff_append.1 hfind
    have hnone : ∀ q ∈ before, q.nested scheme = false := by simpa using hbefore
    exact ⟨before, p, after, hsplit, hnone, hp,
      by rw [ofTree_eq_along, hsplit, along_of_nested hnone hp]⟩

end Trace

end StyleSlots
