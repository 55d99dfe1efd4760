/-! # Ordered sets

    - **Membership**: an element is held once, however often it is inserted.
    - **Order**: elements stand in the order of their first insertion.

    Class names and rules are kept in such a set: a second copy of a class
    changes nothing on a page, while the order in which rules were first
    written decides which of them win. -/

namespace StyleSlots

/-- A list without repeated elements. -/
structure OrderedSet (α : Type) where
  toList : List α
  nodup  : toList.Nodup
  deriving DecidableEq, Repr

namespace OrderedSet

variable {α : Type}

/-- The set without elements. -/
def empty : OrderedSet α := ⟨[], List.nodup_nil⟩

/-- The number of elements. -/
def size (s : OrderedSet α) : Nat := s.toList.length

variable [DecidableEq α]

/-- Puts an element at the end, unless it is there already. -/
def insert (s : OrderedSet α) (x : α) : OrderedSet α :=
  if h : x ∈ s.toList then s
  else
    ⟨s.toList ++ [x], by
      rw [List.nodup_append]
      refine ⟨s.nodup, by simp, ?_⟩
      intro a ha b hb hab
      simp only [List.mem_singleton] at hb
      exact h (hb ▸ hab ▸ ha)⟩

/-- Inserts the elements of a list, first to last. -/
def insertMany (s : OrderedSet α) (xs : List α) : OrderedSet α := xs.foldl insert s

/-- The distinct elements of a list in the order of their first occurrence. -/
def ofList (xs : List α) : OrderedSet α := empty.insertMany xs

end OrderedSet

end StyleSlots
