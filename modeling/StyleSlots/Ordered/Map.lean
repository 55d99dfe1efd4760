/-! # Ordered maps

    - **Position**: a key stands where it was first inserted.
    - **Value**: a key has the value that was inserted last.

    The two halves differ on purpose. In a merge of class names the last
    class of a group wins, and it takes the place that the group already
    had. -/

namespace StyleSlots

/-- Pairs of a key and a value, with no key in two of them. -/
structure OrderedMap (κ ν : Type) where
  toList : List (κ × ν)
  nodup  : (toList.map Prod.fst).Nodup
  deriving DecidableEq, Repr

namespace OrderedMap

variable {κ ν : Type}

/-- The map without pairs. -/
def empty : OrderedMap κ ν := ⟨[], List.nodup_nil⟩

/-- The keys, in the order of their first insertion. -/
def keys (m : OrderedMap κ ν) : List κ := m.toList.map Prod.fst

/-- The values, in the order of their keys. -/
def values (m : OrderedMap κ ν) : List ν := m.toList.map Prod.snd

/-- The number of pairs. -/
def size (m : OrderedMap κ ν) : Nat := m.toList.length

variable [DecidableEq κ]

/-- The pairs with the value under `k` replaced. -/
def replace (k : κ) (v : ν) (pairs : List (κ × ν)) : List (κ × ν) :=
  pairs.map fun p => if p.1 = k then (p.1, v) else p

theorem map_fst_replace (k : κ) (v : ν) (pairs : List (κ × ν)) :
    (replace k v pairs).map Prod.fst = pairs.map Prod.fst := by
  simp only [replace, List.map_map, List.map_inj_left]
  intro p _
  by_cases h : p.1 = k <;> simp [h]

/-- Gives `k` the value `v`: in its place if it has one, else at the end. -/
def insert (m : OrderedMap κ ν) (k : κ) (v : ν) : OrderedMap κ ν :=
  if h : k ∈ m.keys then ⟨replace k v m.toList, by rw [map_fst_replace]; exact m.nodup⟩
  else
    ⟨m.toList ++ [(k, v)], by
      rw [List.map_append, List.nodup_append]
      refine ⟨m.nodup, by simp, ?_⟩
      intro a ha b hb hab
      simp only [List.map_cons, List.map_nil, List.mem_singleton] at hb
      exact h (hb ▸ hab ▸ ha)⟩

/-- Inserts the pairs of a list, first to last. -/
def insertMany (m : OrderedMap κ ν) (pairs : List (κ × ν)) : OrderedMap κ ν :=
  pairs.foldl (fun m p => m.insert p.1 p.2) m

/-- The map that the pairs of a list make, first to last. -/
def ofList (pairs : List (κ × ν)) : OrderedMap κ ν := empty.insertMany pairs

end OrderedMap

end StyleSlots
