import StyleSlots.Proofs.Node.Occurrences

/-! # The places of a tree

    Equal nodes may stand in a tree more than once. A place tells them
    apart: it says which node to take at each depth, and which nodes one
    passes on the way down.

    - **Document order**: a node comes before everything inside it, and that
      before the next node of its list. On paths this is the lexicographic
      order.
    - **Main statement**: `documentOrder_places`, the listing `places` has
      every place of a tree exactly once and in document order. -/

namespace StyleSlots

namespace Node

/-- What holds of a node if it holds of the nodes directly inside it holds of
    every node. -/
theorem inside_induction {P : Node → Prop}
    (step : ∀ node, (∀ inner ∈ node.inside, P inner) → P node) (node : Node) : P node := by
  apply step
  intro inner hinner
  have hsmaller : sizeOf inner < sizeOf node := by
    cases node with
    | rule selectors nodes source =>
      have hlt := List.sizeOf_lt_of_mem hinner
      simp only [inside, rule.sizeOf_spec] at hlt ⊢
      omega
    | block head nodes source =>
      have hlt := List.sizeOf_lt_of_mem hinner
      simp only [inside, block.sizeOf_spec] at hlt ⊢
      omega
    | _ => cases hinner
  exact inside_induction step inner
termination_by sizeOf node

end Node

/-! ## Places -/

/-- A node with the way that leads to it. -/
structure Place where
  /-- Which node to take at each depth, counted from zero. -/
  path   : List Nat
  /-- The nodes on the way, outermost first. -/
  around : List Node
  node   : Node
  deriving Repr

namespace Place

/-- The place of the `i`th node of a list. -/
def here (i : Nat) (node : Node) : Place := ⟨[i], [], node⟩

/-- A place as it is seen from further out: the way goes through the nodes of
    `outer` first. -/
def below (path : List Nat) (outer : List Node) (p : Place) : Place :=
  ⟨path ++ p.path, outer ++ p.around, p.node⟩

/-- Whether a place is one of a list of nodes: each step of its way goes to a
    node directly inside the one before. -/
inductive In : List Node → Place → Prop where
  | here {nodes : List Node} {i : Nat} {node : Node} (h : nodes[i]? = some node) :
      In nodes (.here i node)
  | inside {nodes : List Node} {i : Nat} {outer : Node} {p : Place} (h : nodes[i]? = some outer)
      (hp : In outer.inside p) : In nodes (p.below [i] [outer])

/-- Whether the way to `p` goes on from `q`. -/
def Inside (p q : Place) : Prop :=
  ∃ inner : Place, inner.In q.node.inside ∧ p = inner.below q.path (q.around ++ [q.node])

@[simp] theorem node_here (i : Nat) (node : Node) : (here i node).node = node := rfl

@[simp] theorem around_here (i : Nat) (node : Node) : (here i node).around = [] := rfl

@[simp] theorem node_below (path : List Nat) (outer : List Node) (p : Place) :
    (p.below path outer).node = p.node := rfl

@[simp] theorem around_below (path : List Nat) (outer : List Node) (p : Place) :
    (p.below path outer).around = outer ++ p.around := rfl

theorem below_below (path path' : List Nat) (outer outer' : List Node) (p : Place) :
    (p.below path outer).below path' outer' = p.below (path' ++ path) (outer' ++ outer) := by
  simp [below]

/-- Every node on the way to a place has a place of its own. -/
theorem exists_of_around {nodes : List Node} {p : Place} (h : p.In nodes) :
    ∀ {before : List Node} {outer : Node} {after : List Node},
      p.around = before ++ outer :: after →
      ∃ q : Place, q.In nodes ∧ q.around = before ∧ q.node = outer ∧ p.Inside q := by
  induction h with
  | here h =>
    intro before outer after haround
    simp [Place.here] at haround
  | @inside nodes i first p h hp ih =>
    intro before outer after haround
    rw [around_below, List.singleton_append] at haround
    cases before with
    | nil =>
      -- the way starts with `outer`
      obtain ⟨rfl, -⟩ := List.cons.inj haround
      exact ⟨.here i first, .here h, rfl, rfl, p, hp, rfl⟩
    | cons _ before =>
      rw [List.cons_append] at haround
      obtain ⟨rfl, hrest⟩ := List.cons.inj haround
      obtain ⟨q, hq, rfl, rfl, inner, hinner, rfl⟩ := ih hrest
      refine ⟨q.below [i] [first], .inside h hq, rfl, rfl, inner, hinner, ?_⟩
      rw [below_below]
      rfl

end Place

namespace Node

variable {nodes : List Node} {p : Place}

theorem occurs_of_in (h : p.In nodes) : Occurs p.node nodes := by
  induction h with
  | here h => exact Occurs.of_mem (List.mem_of_getElem? h)
  | inside h _ ih => exact (Occurs.of_mem (List.mem_of_getElem? h)).trans ih

theorem occurs_of_mem_around (h : p.In nodes) {outer : Node} (houter : outer ∈ p.around) :
    Occurs outer nodes := by
  obtain ⟨before, after, haround⟩ := List.append_of_mem houter
  obtain ⟨q, hq, -, rfl, -⟩ := Place.exists_of_around h haround
  exact occurs_of_in hq

end Node

/-! ## The listing -/

mutual

/-- The places of the `i`th node of a list and of all nodes inside it. -/
def placesAt (i : Nat) : Node → List Place
  | .rule selectors nodes source =>
    .here i (.rule selectors nodes source) ::
      (placesFrom 0 nodes).map (Place.below [i] [.rule selectors nodes source])
  | .block head nodes source =>
    .here i (.block head nodes source) ::
      (placesFrom 0 nodes).map (Place.below [i] [.block head nodes source])
  | node => [.here i node]

/-- The places of nodes of which the first is the `i`th one of a list. -/
def placesFrom (i : Nat) : List Node → List Place
  | [] => []
  | node :: more => placesAt i node ++ placesFrom (i + 1) more

end

/-- The places of a list of nodes, first to last. -/
def places (nodes : List Node) : List Place := placesFrom 0 nodes

theorem placesAt_eq (i : Nat) (node : Node) :
    placesAt i node = .here i node :: (places node.inside).map (Place.below [i] [node]) := by
  cases node <;> rfl

/-- Seen from further out, the places inside a node are behind the node. -/
theorem map_below_placesAt (path : List Nat) (outer : List Node) (i : Nat) (node : Node) :
    (placesAt i node).map (Place.below path outer) = (Place.here i node).below path outer ::
      (places node.inside).map (Place.below (path ++ [i]) (outer ++ [node])) := by
  have hbelow : Place.below path outer ∘ Place.below [i] [node] =
      Place.below (path ++ [i]) (outer ++ [node]) := by
    funext p
    exact Place.below_below ..
  rw [placesAt_eq, List.map_cons, List.map_map, hbelow]

theorem placesFrom_eq (i : Nat) (nodes : List Node) :
    placesFrom i nodes = (nodes.zipIdx i).flatMap fun node => placesAt node.2 node.1 := by
  induction nodes generalizing i with
  | nil => rfl
  | cons node nodes ih => rw [placesFrom, ih, List.zipIdx_cons, List.flatMap_cons]

theorem mem_places_iff_getElem? {nodes : List Node} {p : Place} :
    p ∈ places nodes ↔ ∃ i node, nodes[i]? = some node ∧
      (p = .here i node ∨ ∃ q ∈ places node.inside, p = q.below [i] [node]) := by
  rw [places, placesFrom_eq, List.mem_flatMap]
  constructor
  · rintro ⟨⟨node, i⟩, hnode, hp⟩
    rw [placesAt_eq, List.mem_cons, List.mem_map] at hp
    refine ⟨i, node, List.mem_zipIdx_iff_getElem?.1 hnode, hp.imp_right ?_⟩
    rintro ⟨q, hq, rfl⟩
    exact ⟨q, hq, rfl⟩
  · rintro ⟨i, node, hnode, hp⟩
    refine ⟨(node, i), List.mem_zipIdx_iff_getElem?.2 hnode, ?_⟩
    rw [placesAt_eq, List.mem_cons, List.mem_map]
    refine hp.imp_right ?_
    rintro ⟨q, hq, rfl⟩
    exact ⟨q, hq, rfl⟩

/-! ## Document order -/

/-- Whether a list has the places of a tree, each exactly once, a node before
    what is inside it and that before the next node. -/
structure DocumentOrder (nodes : List Node) (ps : List Place) : Prop where
  mem_iff : ∀ p, p ∈ ps ↔ p.In nodes
  ordered : ps.Pairwise fun p q => p.path < q.path

theorem in_of_mem_places_of_each {nodes : List Node}
    (h : ∀ node ∈ nodes, ∀ p ∈ places node.inside, p.In node.inside) :
    ∀ p ∈ places nodes, p.In nodes := by
  intro p hp
  obtain ⟨i, node, hnode, rfl | ⟨q, hq, rfl⟩⟩ := mem_places_iff_getElem?.1 hp
  · exact .here hnode
  · exact .inside hnode (h node (List.mem_of_getElem? hnode) q hq)

theorem mem_places_iff {nodes : List Node} {p : Place} : p ∈ places nodes ↔ p.In nodes := by
  constructor
  · have hinside : ∀ node : Node, ∀ q ∈ places node.inside, q.In node.inside :=
      Node.inside_induction fun _ ih => in_of_mem_places_of_each ih
    exact in_of_mem_places_of_each (fun node _ => hinside node) p
  · intro h
    induction h with
    | here h => exact mem_places_iff_getElem?.2 ⟨_, _, h, .inl rfl⟩
    | inside h _ ih => exact mem_places_iff_getElem?.2 ⟨_, _, h, .inr ⟨_, ih, rfl⟩⟩

/-- All paths of the `i`th node start with `i`. -/
theorem head_of_mem_placesAt {i : Nat} {node : Node} {p : Place} (h : p ∈ placesAt i node) :
    ∃ path, p.path = i :: path := by
  rw [placesAt_eq, List.mem_cons, List.mem_map] at h
  obtain rfl | ⟨q, _, rfl⟩ := h
  · exact ⟨[], rfl⟩
  · exact ⟨q.path, rfl⟩

theorem pairwise_placesAt {i : Nat} {node : Node}
    (h : (places node.inside).Pairwise fun p q => p.path < q.path) :
    (placesAt i node).Pairwise fun p q => p.path < q.path := by
  rw [placesAt_eq, List.pairwise_cons, List.pairwise_map]
  constructor
  · intro p hp
    obtain ⟨q, hq, rfl⟩ := List.mem_map.1 hp
    -- the path of a node is a proper part of the paths inside it
    obtain ⟨j, path, hpath⟩ : ∃ j path, q.path = j :: path := by
      obtain ⟨j, _, _, rfl | ⟨r, _, rfl⟩⟩ := mem_places_iff_getElem?.1 hq
      · exact ⟨j, [], rfl⟩
      · exact ⟨j, r.path, rfl⟩
    show [i] < [i] ++ q.path
    rw [hpath, List.singleton_append, List.cons_lt_cons_iff]
    exact .inr ⟨rfl, List.nil_lt_cons ..⟩
  · refine h.imp ?_
    intro p q hlt
    show [i] ++ p.path < [i] ++ q.path
    rw [List.singleton_append, List.singleton_append, List.cons_lt_cons_iff]
    exact .inr ⟨rfl, hlt⟩

theorem pairwise_places_of_each {nodes : List Node}
    (h : ∀ node ∈ nodes, (places node.inside).Pairwise fun p q => p.path < q.path) :
    (places nodes).Pairwise fun p q => p.path < q.path := by
  rw [places, placesFrom_eq, List.pairwise_flatMap]
  constructor
  · rintro ⟨node, i⟩ hnode
    exact pairwise_placesAt (h node (List.mem_of_getElem? (List.mem_zipIdx_iff_getElem?.1 hnode)))
  · have hincreasing : (nodes.zipIdx.map Prod.snd).Pairwise (· < ·) := by
      rw [List.zipIdx_map_snd]
      exact List.pairwise_lt_range'
    refine (List.pairwise_map.1 hincreasing).imp ?_
    intro first second hlt p hp q hq
    obtain ⟨path, hpath⟩ := head_of_mem_placesAt hp
    obtain ⟨path', hpath'⟩ := head_of_mem_placesAt hq
    rw [hpath, hpath', List.cons_lt_cons_iff]
    exact .inl hlt

/-- The places of a list of nodes are listed in document order. -/
theorem documentOrder_places (nodes : List Node) : DocumentOrder nodes (places nodes) where
  mem_iff := fun _ => mem_places_iff
  ordered := by
    have hinside : ∀ node : Node,
        (places node.inside).Pairwise fun p q => p.path < q.path :=
      Node.inside_induction fun _ ih => pairwise_places_of_each ih
    exact pairwise_places_of_each fun node _ => hinside node

end StyleSlots
