import StyleSlots.Compiler
import StyleSlots.Proofs.Node.Sameness
import StyleSlots.Proofs.Trace.Places

/-! # Positions decide nothing

    A compilation hands positions on, into its rules, into what it carries
    along and into its refusals. It takes no decision by them.

    - **Erasure**: what happens to a tree without its positions is what
      happens to the tree, without the positions in it.
    - **Main statement**: `ofTree_unplacedAll`, from which follows that trees
      which are the same without positions have traces that are. -/

namespace StyleSlots

/-! ## Erasure -/

namespace Node

theorem unplacedAll_eq_map (nodes : List Node) : unplacedAll nodes = nodes.map unplaced := by
  induction nodes with
  | nil => rfl
  | cons node more ih => rw [unplacedAll, ih, List.map_cons]

theorem unplacedAll_append (ms ns : List Node) :
    unplacedAll (ms ++ ns) = unplacedAll ms ++ unplacedAll ns := by
  simp only [unplacedAll_eq_map, List.map_append]

end Node

/-- A declaration without its position. -/
def Declaration.unplaced (d : Declaration) : Declaration := { d with source := none }

/-- An atomic rule without the position of its declaration. -/
def AtomicRule.unplaced (r : AtomicRule) : AtomicRule :=
  { r with declaration := r.declaration.unplaced }

/-- A refusal without the position in it. -/
def Refusal.unplaced : Refusal → Refusal
  | nestedRule selector _ => nestedRule selector none
  | stated reason _ => stated reason none

/-- An event without the positions in it. -/
def Event.unplaced : Event → Event
  | made rule => made rule.unplaced
  | carried node => carried node.unplaced
  | droppedBlock head selectors => droppedBlock head selectors
  | droppedNode node => droppedNode node.unplaced

namespace Trace

/-- A trace without the positions in it. -/
def unplaced (t : Trace) : Trace :=
  ⟨t.events.map Event.unplaced, t.refusal.map Refusal.unplaced⟩

theorem unplaced_andThen (s t : Trace) :
    (s.andThen t).unplaced = s.unplaced.andThen t.unplaced := by
  unfold andThen unplaced
  cases s.refusal <;> simp

theorem rules_unplaced (t : Trace) : t.unplaced.rules = t.rules.map AtomicRule.unplaced := by
  unfold rules unplaced
  rw [List.filterMap_map, List.map_filterMap]
  congr 1
  funext e
  cases e <;> rfl

theorem names_unplaced (t : Trace) : t.unplaced.names = t.names := by
  rw [names, rules_unplaced, List.map_map]
  rfl

theorem carried_unplaced (t : Trace) : t.unplaced.carried = Node.unplacedAll t.carried := by
  unfold carried unplaced
  rw [Node.unplacedAll_eq_map, List.filterMap_map, List.map_filterMap]
  congr 1
  funext e
  cases e <;> rfl

theorem refusal_unplaced_eq_none_iff (t : Trace) :
    t.unplaced.refusal = none ↔ t.refusal = none := by
  simp [unplaced]

/-! ## Walks -/

theorem ofDeclaration_unplaced (scheme : Scheme) (context : List AtRule) (selectors : List Text)
    (d : Declaration) : ofDeclaration scheme context selectors d.unplaced =
      (ofDeclaration scheme context selectors d).unplaced := by
  unfold ofDeclaration ofEvents unplaced
  simp only [List.map_map]
  rfl

theorem ofRule_unplacedAll (scheme : Scheme) (context : List AtRule) (selectors : List Text)
    (nodes : List Node) : ofRule scheme context selectors (Node.unplacedAll nodes) =
      (ofRule scheme context selectors nodes).unplaced := by
  induction nodes with
  | nil => rfl
  | cons node nodes ih =>
    cases node with
    -- refused, and the refusal loses its position
    | rule inner _ source => rfl
    | declaration d =>
      rw [ofRule, unplaced_andThen, ← ofDeclaration_unplaced, ← ih]
      rfl
    | block head inner source =>
      rw [ofRule, unplaced_andThen, ← ih]
      rfl
    | _ => exact ih

mutual

theorem ofNode_unplaced (scheme : Scheme) (context : List AtRule) : ∀ node : Node,
    ofNode scheme context node.unplaced = (ofNode scheme context node).unplaced
  | .declaration d => ofDeclaration_unplaced scheme context [] d
  | .rule selectors nodes _ => ofRule_unplacedAll scheme context selectors nodes
  | .block head nodes _ => ofNodes_unplacedAll scheme (context ++ [head]) nodes
  | .comment .. => rfl
  | .other .. => rfl
  | .foreign _ => rfl

theorem ofNodes_unplacedAll (scheme : Scheme) (context : List AtRule) : ∀ nodes : List Node,
    ofNodes scheme context (Node.unplacedAll nodes) = (ofNodes scheme context nodes).unplaced
  | [] => rfl
  | node :: more => by
    rw [Node.unplacedAll, ofNodes, ofNode_unplaced scheme context node,
      ofNodes_unplacedAll scheme context more, ofNodes, unplaced_andThen]

end

theorem ofTopNode_unplaced (scheme : Scheme) (node : Node) :
    ofTopNode scheme node.unplaced = (ofTopNode scheme node).unplaced := by
  cases node with
  | block head nodes source =>
    -- whether a block is entered is decided by its name
    rw [Node.unplaced, ofTopNode, ofTopNode]
    by_cases h : scheme.supported.contains head.name = true
    · rw [if_pos h, if_pos h]
      exact ofNodes_unplacedAll scheme [head] nodes
    · rw [if_neg h, if_neg h]
      rfl
  | other kind text source =>
    rw [Node.unplaced, ofTopNode, ofTopNode]
    by_cases h : text.isEmpty = true
    · rw [if_pos h, if_pos h]
      rfl
    · rw [if_neg h, if_neg h]
      rfl
  | declaration d => exact ofNode_unplaced scheme [] (.declaration d)
  | rule selectors nodes source => exact ofNode_unplaced scheme [] (.rule selectors nodes source)
  | comment text source => rfl
  | foreign value => rfl

/-- What happens to a tree does not depend on its positions. -/
theorem ofTree_unplacedAll (scheme : Scheme) (nodes : List Node) :
    ofTree scheme (Node.unplacedAll nodes) = (ofTree scheme nodes).unplaced := by
  induction nodes with
  | nil => rfl
  | cons node more ih =>
    rw [Node.unplacedAll, ofTree_cons, ofTree_cons, ofTopNode_unplaced, ih, unplaced_andThen]

/-- Trees are compiled one behind the other, up to a refusal. -/
theorem ofTree_append (scheme : Scheme) (ms ns : List Node) :
    ofTree scheme (ms ++ ns) = (ofTree scheme ms).andThen (ofTree scheme ns) := by
  induction ms with
  | nil => rfl
  | cons m ms ih =>
    rw [List.cons_append, ofTree_cons, ih, ofTree_cons, andThen_assoc]

end Trace

end StyleSlots
