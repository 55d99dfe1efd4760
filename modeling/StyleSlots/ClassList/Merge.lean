import StyleSlots.ClassList.Memo

/-! # Merging class names

    - **Groups**: `mergeGroups` merges candidates into a fragment.
    - **Class text**: `mergeClasses` merges them into the text of a class
      attribute. A lone class text of one word is answered as it is.
    - **Scheme**: given by the caller, or that of the memo, or the default
      one. A memo of another scheme than the caller's is refused before
      anything is looked up.

    Each merge also says what becomes of its memo. -/

namespace StyleSlots

/-! ## Faults -/

/-- Why a merge has no answer. -/
inductive MergeFault where
  | schemeMismatch (memo given : Scheme)
  /-- The argument is neither a candidate nor a list of candidates. -/
  | noList
  deriving DecidableEq, Repr

/-- The wording of a fault. -/
def MergeFault.message : MergeFault → Text
  | schemeMismatch memo given =>
    "cache was built for ".toList ++ memo.display ++ ", which does not match config ".toList ++
      given.display
  | noList => "candidates must be a list of candidates".toList

/-! ## Where texts are classified -/

/-- What a merge classifies class texts with. -/
inductive Classifier where
  | plain (scheme : Scheme)
  | remembering (memo : Memo)
  deriving DecidableEq, Repr

namespace Classifier

/-- The classifier for the scheme and the memo that a caller gives. -/
def select (scheme : Option Scheme) (memo : Option Memo) :
    Except MergeFault Classifier :=
  match memo, scheme with
  | none, scheme => .ok (.plain (scheme.getD .default))
  | some memo, none => .ok (.remembering memo)
  | some memo, some scheme =>
    if scheme = memo.scheme then .ok (.remembering memo)
    else .error (.schemeMismatch memo.scheme scheme)

/-- The memo of a classifier. -/
def memo? : Classifier → Option Memo
  | plain _ => none
  | remembering memo => some memo

/-- Resolves pieces, first to last. -/
def resolveAll (c : Classifier) (pieces : List Piece) : List ResolvedPiece × Classifier :=
  match c with
  | plain scheme => (pieces.map (Piece.resolve scheme), plain scheme)
  | remembering memo =>
    let found := memo.resolveAll pieces
    (found.1, remembering found.2)

/-- Merges a list of candidates. -/
def merge (c : Classifier) (candidates : List Candidate) : Fragment × Classifier :=
  let found := c.resolveAll (Candidate.piecesAll candidates)
  (.ofPieces found.1, found.2)

/-! ## Groups -/

/-- Merges a list of candidates into a fragment, if it has any token. -/
def groups (c : Classifier) (candidates : List Candidate) : Option Fragment × Classifier :=
  let merged := c.merge candidates
  (if merged.1.size = 0 then none else some merged.1, merged.2)

/-! ## Class text -/

/-- The text of a class attribute, if it is not empty. -/
def nonempty? (t : Text) : Option Text := if t.isEmpty then none else some t

/-- The answer that needs no merge, if there is one: nothing for no
    candidate or a lone false one, and a lone word itself. -/
def shortcut? : List Candidate → Option (Option Text)
  | [] => some none
  | [only] =>
    -- what counts as false is not looked at any further
    if only.truthy then
      match only with
      | .text classes => if classes.any isBlank then none else some (some classes)
      | _ => none
    else some none
  | _ => none

/-- Merges a list of candidates into the text of a class attribute. -/
def classText (c : Classifier) (candidates : List Candidate) : Option Text × Classifier :=
  match shortcut? candidates with
  | some answer => (answer, c)
  | none =>
    let merged := c.merge candidates
    (nonempty? merged.1.classText, merged.2)

end Classifier

/-! ## Calls -/

/-- Answers a call with a function of its classifier and its candidates. -/
def callWith {α : Type} (answer : Classifier → List Candidate → α × Classifier)
    (argument : Candidate) (scheme : Option Scheme) (memo : Option Memo) :
    Except MergeFault (α × Option Memo) := do
  let classifier ← Classifier.select scheme memo
  match argument.arguments? with
  | none => .error .noList
  | some candidates =>
    let (found, after) := answer classifier candidates
    .ok (found, after.memo?)

/-- Merges an argument into a fragment. -/
def mergeGroups (argument : Candidate) (scheme : Option Scheme) (memo : Option Memo) :
    Except MergeFault (Option Fragment × Option Memo) :=
  callWith Classifier.groups argument scheme memo

/-- Merges an argument into the text of a class attribute. -/
def mergeClasses (argument : Candidate) (scheme : Option Scheme) (memo : Option Memo) :
    Except MergeFault (Option Text × Option Memo) :=
  callWith Classifier.classText argument scheme memo

end StyleSlots
