import StyleSlots.ClassList.Fragment

/-! # Candidates

    - **Candidate**: what a call site offers for a class attribute: a class
      text, a fragment, a list of candidates, or something that stands for
      no class, such as the value of a condition that does not hold.
    - **Argument**: a merge is called with a list of candidates, or with a
      lone text or fragment.
    - **Pieces**: the texts and fragments of a list in the order in which
      they are met, however deeply they are nested. -/

namespace StyleSlots

/-! ## Candidates -/

/-- What may be merged. -/
inductive Candidate where
  | text (classes : Text)
  | fragment (f : Fragment)
  /-- A list, and whether it is a fixed one. -/
  | list (items : List Candidate) (fixed : Bool := false)
  /-- Something that stands for no class. -/
  | datum (value : Datum)
  deriving Repr

namespace Candidate

/-- Whether a candidate counts as true. -/
def truthy : Candidate → Bool
  | text classes => ! classes.isEmpty
  | fragment f => f.size != 0
  | list items _ => ! items.isEmpty
  | datum value => value.truthy

/-- Whether a candidate is the value that is no number. -/
def isUndefined : Candidate → Bool
  | datum value => value.isUndefined
  | _ => false

mutual

/-- Whether two candidates are equal. A fragment equals only a fragment, and
    a fixed list only a fixed one. -/
def agrees : Candidate → Candidate → Bool
  | text a, text b => a == b
  | fragment f, fragment g => f == g
  | list as s, list bs t => s == t && agreesAll as bs
  | datum a, datum b => a.agrees b
  | _, _ => false

/-- Whether two lists of candidates are equal. -/
def agreesAll : List Candidate → List Candidate → Bool
  | [], [] => true
  | a :: as, b :: bs => (agrees a b || a.isUndefined && b.isUndefined) && agreesAll as bs
  | _, _ => false

end

/-! ## Arguments -/

/-- The list of candidates that an argument stands for. A lone text or
    fragment is one candidate, and a record stands for its keys. A number
    other than zero stands for no list. -/
def arguments? : Candidate → Option (List Candidate)
  | text classes => some [text classes]
  | fragment f => some [fragment f]
  | list items _ => some items
  | datum (.flag _) => some []
  | datum (.record keys _) => some (keys.map text)
  | datum value => if value.truthy then none else some []

end Candidate

/-! ## Pieces -/

/-- A candidate that contributes to a merge. -/
inductive Piece where
  | text (classes : Text)
  | fragment (f : Fragment)
  deriving DecidableEq, Repr

namespace Candidate

mutual

/-- The pieces of a candidate. -/
def pieces : Candidate → List Piece
  | text classes => if classes.isEmpty then [] else [.text classes]
  | fragment f => if f.size = 0 then [] else [.fragment f]
  | list items _ => piecesAll items
  | datum _ => []

/-- The pieces of a list of candidates. -/
def piecesAll : List Candidate → List Piece
  | [] => []
  | item :: more => pieces item ++ piecesAll more

end

end Candidate

/-- A piece whose text has been classified. -/
inductive ResolvedPiece where
  | tokens (ts : List Classified)
  | fragment (f : Fragment)
  deriving DecidableEq, Repr

namespace Fragment

/-- Takes in a piece. -/
def take (f : Fragment) : ResolvedPiece → Fragment
  | .tokens ts => f.insertMany ts
  | .fragment g => f.append g

/-- The fragment that pieces make, first to last. -/
def ofPieces (pieces : List ResolvedPiece) : Fragment := pieces.foldl take empty

end Fragment

/-- A piece resolved under a scheme. -/
def Piece.resolve (scheme : Scheme) : Piece → ResolvedPiece
  | .text classes => .tokens (classify scheme classes)
  | .fragment f => .fragment f

end StyleSlots
