import StyleSlots.Cascade.Shorthand
import StyleSlots.Node.Basic

/-! # Shorthands first

    - **Scope**: the declarations directly inside a list of nodes. Each
      rule and each block is a scope of its own.
    - **Order**: a declaration is written behind every shorthand of its
      scope that supersedes it, and otherwise where its author put it.
    - **Slots**: declarations only trade places with each other. Rules,
      blocks and all other nodes stay where they are.

    The order of a scope comes from a depth-first walk over the entries
    that are not written yet. An entry leaves that list before the walk
    goes to the shorthands above it, so the list grows shorter at every
    turn and no entry is written twice. -/

namespace StyleSlots

namespace Cascade

/-! ## One scope -/

/-- A declaration with its place in its scope, which tells equal
    declarations apart. -/
abbrev Entry : Type := Declaration × Nat

/-- The entries of `pending` that have to stand before `e`. -/
def above (e : Entry) (pending : List Entry) : List Entry :=
  pending.filter fun other => supersedes other.1.prop e.1.prop

/-- The square of the number of pending entries outweighs the work, which is
    never more than the entries that were pending when it was listed. -/
theorem square_add_lt {a b v w : Nat} (h : b < a) (hv : v ≤ b + w) :
    b * b + v < a * a + (w + 1) := by
  have := Nat.mul_le_mul h h
  rw [Nat.succ_mul, Nat.mul_succ] at this
  omega

/-- Visits the entries of `work` in turn and returns what was written, with
    what is still pending. An entry that is pending is written behind the
    visits to the entries above it; one that is not is passed over. -/
def visit (pending : List Entry) :
    (work : List Entry) → { r : List Entry × List Entry // r.2.length ≤ pending.length }
  | [] => ⟨([], pending), Nat.le_refl _⟩
  | e :: work =>
    if h : e ∈ pending then
      have shorter : (pending.erase e).length < pending.length := by
        have := List.length_pos_of_mem h
        rw [List.length_erase_of_mem h]
        omega
      -- what has to stand before `e` is written first
      let first := visit (pending.erase e) (above e (pending.erase e))
      have firstShorter : first.1.2.length < pending.length :=
        Nat.lt_of_le_of_lt first.2 shorter
      -- then `e`, and then the rest of the work
      let second := visit first.1.2 work
      ⟨(first.1.1 ++ e :: second.1.1, second.1.2),
        Nat.le_trans second.2 (Nat.le_of_lt firstShorter)⟩
    else visit pending work
termination_by work => pending.length * pending.length + work.length
decreasing_by
  · exact square_add_lt shorter (Nat.le_add_right_of_le (List.length_filter_le ..))
  · exact square_add_lt firstShorter (Nat.le_add_left ..)
  · simp only [List.length_cons]
    omega

/-- The declarations of a scope with every shorthand before the properties
    it supersedes. -/
def orderScope (ds : List Declaration) : List Declaration :=
  let entries := ds.zipIdx
  (visit entries entries).1.1.map Prod.fst

/-! ## Nodes -/

/-- The nodes with their declarations replaced, in turn, by the given ones. -/
def refill : List Node → List Declaration → List Node
  | .declaration _ :: nodes, d :: ds => .declaration d :: refill nodes ds
  | node :: nodes, ds => node :: refill nodes ds
  | [], _ => []

mutual

/-- A node with the scopes inside it in order. -/
def orderNode : Node → Node
  | .rule selectors nodes source =>
    .rule selectors (refill (orderEach nodes) (orderScope (Node.declarations nodes))) source
  | .block head nodes source =>
    .block head (refill (orderEach nodes) (orderScope (Node.declarations nodes))) source
  | node => node

/-- The nodes of a list, each with the scopes inside it in order. -/
def orderEach : List Node → List Node
  | [] => []
  | node :: more => orderNode node :: orderEach more

end

/-- The nodes with every scope in order, this one and those further inside. -/
def order (nodes : List Node) : List Node :=
  refill (orderEach nodes) (orderScope (Node.declarations nodes))

end Cascade

end StyleSlots
