import StyleSlots.ClassList.Candidate

/-! # Memos

    - **Contents**: classified class texts, the one used last in front.
    - **Bound**: a memo that is full gives up the text that has not been
      used for longest. One with no room holds nothing.
    - **Counts**: look-ups that found their text, and those that did not.

    A memo belongs to one scheme. What it holds is what classifying
    would give again, so it is never seen in an answer. -/

namespace StyleSlots

/-- A memory of classified texts. -/
structure Memo where
  scheme  : Scheme
  /-- The greatest number of texts held; `none` is no bound. -/
  bound   : Option Nat
  /-- The texts held, the one used last in front. -/
  entries : List (Text × List Classified) := []
  hits    : Nat := 0
  misses  : Nat := 0
  deriving DecidableEq, Repr

namespace Memo

/-- The bound used where none is given. -/
def defaultBound : Nat := 1024

/-- The number of texts held. -/
def size (m : Memo) : Nat := m.entries.length

/-- The texts of a list that fit into a memo, those in front first. -/
def limit (bound : Option Nat) (entries : List (Text × List Classified)) :
    List (Text × List Classified) :=
  match bound with
  | some n => entries.take n
  | none => entries

/-- Classifies a class text, from memory if it is held. -/
def classify (m : Memo) (classes : Text) : List Classified × Memo :=
  match m.entries.find? (·.1 = classes) with
  | some entry =>
    -- a text that is found moves to the front, so it is given up last
    (entry.2,
      { m with entries := entry :: m.entries.filter (·.1 ≠ classes), hits := m.hits + 1 })
  | none =>
    let found := StyleSlots.classify m.scheme classes
    (found,
      { m with entries := limit m.bound ((classes, found) :: m.entries), misses := m.misses + 1 })

/-- Forgets all texts and counts. -/
def clear (m : Memo) : Memo := { m with entries := [], hits := 0, misses := 0 }

/-- Resolves a piece. A fragment needs no look-up. -/
def resolve (m : Memo) : Piece → ResolvedPiece × Memo
  | .text classes =>
    let found := m.classify classes
    (.tokens found.1, found.2)
  | .fragment f => (.fragment f, m)

/-- Resolves pieces, first to last. -/
def resolveAll (m : Memo) : List Piece → List ResolvedPiece × Memo
  | [] => ([], m)
  | piece :: more =>
    let first := m.resolve piece
    let rest := first.2.resolveAll more
    (first.1 :: rest.1, rest.2)

end Memo

end StyleSlots
