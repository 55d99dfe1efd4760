import Mathlib.Logic.Function.Basic
import StyleSlots.ClassList.Merge

/-! # Merging with memos

    A memo saves work and is otherwise not to be noticed: not by what was
    merged before, not by what had to be given up for lack of room, and not
    by other memos.

    - **Invariant**: `Memo.Sound`, each text is held with what classifying it
      under the scheme of the memo gives. It says nothing about which texts
      are held, so it does not matter what is given up.
    - **Calls**: with a sound memo a call answers as it does without one, and
      leaves a sound memo.
    - **Main statement**: `answers_eq_plain`, any number of memos, used in any
      order, never change an answer. -/

namespace StyleSlots

/-! ## Sound memos -/

namespace Memo

/-- A memo that holds nothing yet. A bound below zero leaves as little room
    as zero. -/
def fresh (scheme : Scheme) (bound : Option Int) : Memo :=
  { scheme, bound := bound.map Int.toNat }

/-- What a memo holds is what classifying would give again. -/
structure Sound (scheme : Scheme) (m : Memo) : Prop where
  scheme_eq : m.scheme = scheme
  recalled  : ∀ entry ∈ m.entries, entry.2 = StyleSlots.classify scheme entry.1

theorem sound_fresh (scheme : Scheme) (bound : Option Int) : (fresh scheme bound).Sound scheme where
  scheme_eq := rfl
  recalled := List.forall_mem_nil _

theorem mem_of_mem_limit {bound : Option Nat} {entries : List (Text × List Classified)}
    {entry : Text × List Classified} (h : entry ∈ limit bound entries) : entry ∈ entries := by
  cases bound with
  | none => exact h
  | some n => exact List.mem_of_mem_take h

namespace Sound

variable {scheme : Scheme} {m : Memo}

/-- A look-up finds what classifying gives, and keeps a memo sound. -/
theorem classify (h : m.Sound scheme) (classes : Text) :
    (m.classify classes).1 = StyleSlots.classify scheme classes ∧
      (m.classify classes).2.Sound scheme := by
  unfold Memo.classify
  cases hfind : m.entries.find? (·.1 = classes) with
  | some entry =>
    -- what is found only moves to the front
    have hmem := List.mem_of_find?_eq_some hfind
    have hkey : entry.1 = classes := by simpa using List.find?_some hfind
    refine ⟨(h.recalled entry hmem).trans (by rw [hkey]), h.scheme_eq, ?_⟩
    intro other hother
    rcases List.mem_cons.1 hother with rfl | hother
    · exact h.recalled other hmem
    · exact h.recalled other (List.mem_filter.1 hother).1
  | none =>
    refine ⟨by rw [h.scheme_eq], h.scheme_eq, ?_⟩
    intro entry hentry
    -- the bound takes entries away and adds none, whichever they are
    rcases List.mem_cons.1 (mem_of_mem_limit hentry) with rfl | hentry
    · rw [h.scheme_eq]
    · exact h.recalled entry hentry

theorem clear (h : m.Sound scheme) : m.clear.Sound scheme where
  scheme_eq := h.scheme_eq
  recalled := List.forall_mem_nil _

theorem resolve (h : m.Sound scheme) (piece : Piece) :
    (m.resolve piece).1 = piece.resolve scheme ∧ (m.resolve piece).2.Sound scheme := by
  cases piece with
  | text classes =>
    obtain ⟨hfound, hafter⟩ := h.classify classes
    exact ⟨congrArg ResolvedPiece.tokens hfound, hafter⟩
  | fragment f => exact ⟨rfl, h⟩

theorem resolveAll (h : m.Sound scheme) (pieces : List Piece) :
    (m.resolveAll pieces).1 = pieces.map (Piece.resolve scheme) ∧
      (m.resolveAll pieces).2.Sound scheme := by
  induction pieces generalizing m with
  | nil => exact ⟨rfl, h⟩
  | cons piece more ih =>
    obtain ⟨hfirst, hafter⟩ := h.resolve piece
    obtain ⟨hrest, hlast⟩ := ih hafter
    refine ⟨?_, hlast⟩
    rw [List.map_cons, ← hfirst, ← hrest]
    rfl

end Sound

end Memo

/-! ## Calls with a sound memo -/

namespace Classifier

/-- An answer does not depend on the memo of a classifier, which it keeps
    sound. -/
def Transparent {α : Type} (answer : Classifier → List Candidate → α × Classifier) : Prop :=
  ∀ scheme candidates (m : Memo), m.Sound scheme →
    ∃ after : Memo, after.Sound scheme ∧
      answer (.remembering m) candidates =
        ((answer (.plain scheme) candidates).1, .remembering after)

theorem transparent_merge : Transparent merge := by
  intro scheme candidates m h
  obtain ⟨hfound, hafter⟩ := h.resolveAll (Candidate.piecesAll candidates)
  refine ⟨_, hafter, ?_⟩
  simp only [merge, resolveAll, hfound]

theorem transparent_groups : Transparent groups := by
  intro scheme candidates m h
  obtain ⟨after, hafter, hmerge⟩ := transparent_merge scheme candidates m h
  refine ⟨after, hafter, ?_⟩
  simp only [groups, hmerge]

/-- The answer that needs no merge leaves a memo as it is. -/
theorem transparent_classText : Transparent classText := by
  intro scheme candidates m h
  unfold classText
  cases shortcut? candidates with
  | some answer => exact ⟨m, h, rfl⟩
  | none =>
    obtain ⟨after, hafter, hmerge⟩ := transparent_merge scheme candidates m h
    refine ⟨after, hafter, ?_⟩
    simp only [hmerge]

end Classifier

section Calls

variable {α : Type} {answer : Classifier → List Candidate → α × Classifier} {scheme : Scheme}
  {m : Memo}

/-- The answer of a call, and the memo that it leaves: the one it was given,
    if it is refused. -/
def settle (m : Memo) (outcome : Except MergeFault (α × Option Memo)) :
    Except MergeFault α × Memo :=
  match outcome with
  | .ok (found, after) => (.ok found, after.getD m)
  | .error fault => (.error fault, m)

/-- What a call without a memo answers under the scheme `own`, if the caller
    gives this scheme or none. -/
def plainly (own : Scheme) (given : Option Scheme)
    (call : Option Scheme → Option Memo → Except MergeFault (α × Option Memo)) :
    Except MergeFault α :=
  if given.getD own = own then (call (some own) none).map Prod.fst
  else .error (.schemeMismatch own (given.getD own))

/-- A call with a scheme other than that of its memo is refused and leaves
    the memo as it was. -/
theorem settle_callWith_of_ne {given : Scheme} (h : given ≠ m.scheme) (argument : Candidate) :
    settle m (callWith answer argument (some given) (some m)) =
      (.error (.schemeMismatch m.scheme given), m) := by
  simp [settle, callWith, Classifier.select, h, bind, Except.bind]

/-- A call without a scheme, or with that of its memo, is a call under the
    scheme of the memo. -/
theorem settle_callWith_of_eq (hanswer : Classifier.Transparent answer) (h : m.Sound scheme)
    {given : Option Scheme} (hgiven : given.getD scheme = scheme) (argument : Candidate) :
    (settle m (callWith answer argument given (some m))).1 =
        (callWith answer argument (some scheme) none).map Prod.fst ∧
      (settle m (callWith answer argument given (some m))).2.Sound scheme := by
  have hselect : Classifier.select given (some m) = .ok (.remembering m) := by
    cases given with
    | none => rfl
    | some given => exact if_pos (hgiven.trans h.scheme_eq.symm)
  unfold callWith
  rw [hselect]
  -- an argument that stands for no list is refused before the memo is used
  cases argument.arguments? with
  | none => exact ⟨rfl, h⟩
  | some candidates =>
    obtain ⟨after, hafter, heq⟩ := hanswer scheme candidates m h
    simp only [bind, Except.bind, heq]
    exact ⟨rfl, hafter⟩

/-- A call with a sound memo answers what it answers without one, and leaves
    a sound memo. -/
theorem settle_callWith (hanswer : Classifier.Transparent answer) (h : m.Sound scheme)
    (argument : Candidate) (given : Option Scheme) :
    (settle m (callWith answer argument given (some m))).1 =
        plainly scheme given (callWith answer argument) ∧
      (settle m (callWith answer argument given (some m))).2.Sound scheme := by
  unfold plainly
  by_cases hgiven : given.getD scheme = scheme
  · rw [if_pos hgiven]
    exact settle_callWith_of_eq hanswer h hgiven argument
  · -- then the caller gave a scheme, and it is another one
    rw [if_neg hgiven]
    cases given with
    | none => exact absurd rfl hgiven
    | some given =>
      obtain rfl := h.scheme_eq
      have hrefused : settle m (callWith answer argument (some given) (some m)) =
          (.error (.schemeMismatch m.scheme given), m) := settle_callWith_of_ne hgiven argument
      rw [hrefused]
      exact ⟨rfl, h⟩

end Calls

/-! ## Programs that use memos -/

/-- What a program does with one of its memos. -/
inductive MemoUse (ι : Type) where
  | groups (argument : Candidate) (given : Option Scheme) (i : ι)
  | classText (argument : Candidate) (given : Option Scheme) (i : ι)
  | clear (i : ι)

/-- What a program gets back. -/
inductive MemoAnswer where
  | groups (found : Except MergeFault (Option Fragment))
  | classText (found : Except MergeFault (Option Text))
  | cleared

namespace MemoUse

variable {ι : Type}

/-- The memo that is used. -/
def memo : MemoUse ι → ι
  | groups _ _ i => i
  | classText _ _ i => i
  | clear i => i

/-- The scheme that a call gives besides its memo. -/
def given? : MemoUse ι → Option Scheme
  | groups _ given _ => given
  | classText _ given _ => given
  | clear _ => none

/-- What a program gets back that has no memos, only their schemes. -/
def plainAnswer (schemes : ι → Scheme) : MemoUse ι → MemoAnswer
  | groups argument given i => .groups (plainly (schemes i) given (mergeGroups argument))
  | classText argument given i => .classText (plainly (schemes i) given (mergeClasses argument))
  | clear _ => .cleared

variable [DecidableEq ι]

/-- What a program gets back from one use, and what becomes of its memos. -/
def step (memos : ι → Memo) : MemoUse ι → MemoAnswer × (ι → Memo)
  | groups argument given i =>
    let (found, after) := settle (memos i) (mergeGroups argument given (some (memos i)))
    (.groups found, Function.update memos i after)
  | classText argument given i =>
    let (found, after) := settle (memos i) (mergeClasses argument given (some (memos i)))
    (.classText found, Function.update memos i after)
  | clear i => (.cleared, Function.update memos i (memos i).clear)

/-- All answers of a program, and its memos in the end. -/
def run (memos : ι → Memo) : List (MemoUse ι) → List MemoAnswer × (ι → Memo)
  | [] => ([], memos)
  | use :: more =>
    let (answer, next) := step memos use
    let (answers, last) := run next more
    (answer :: answers, last)

/-! ## Every use keeps all memos sound -/

variable {schemes : ι → Scheme} {memos : ι → Memo}

theorem sound_update (h : ∀ i, (memos i).Sound (schemes i)) {i : ι} {after : Memo}
    (hafter : after.Sound (schemes i)) :
    ∀ j, (Function.update memos i after j).Sound (schemes j) := by
  intro j
  by_cases hj : j = i
  · subst hj
    rw [Function.update_self]
    exact hafter
  · rw [Function.update_of_ne hj]
    exact h j

/-- With sound memos a program gets back what it gets without memos, and
    every memo stays sound, also those that are not used. -/
theorem step_of_sound (h : ∀ i, (memos i).Sound (schemes i)) (use : MemoUse ι) :
    (step memos use).1 = plainAnswer schemes use ∧
      ∀ i, ((step memos use).2 i).Sound (schemes i) := by
  cases use with
  | groups argument given i =>
    obtain ⟨hfound, hafter⟩ :=
      settle_callWith Classifier.transparent_groups (h i) argument given
    exact ⟨congrArg MemoAnswer.groups hfound, sound_update h hafter⟩
  | classText argument given i =>
    obtain ⟨hfound, hafter⟩ :=
      settle_callWith Classifier.transparent_classText (h i) argument given
    exact ⟨congrArg MemoAnswer.classText hfound, sound_update h hafter⟩
  | clear i => exact ⟨rfl, sound_update h (h i).clear⟩

theorem run_of_sound (h : ∀ i, (memos i).Sound (schemes i)) (uses : List (MemoUse ι)) :
    (run memos uses).1 = uses.map (plainAnswer schemes) ∧
      ∀ i, ((run memos uses).2 i).Sound (schemes i) := by
  induction uses generalizing memos with
  | nil => exact ⟨rfl, h⟩
  | cons use more ih =>
    obtain ⟨hanswer, hnext⟩ := step_of_sound h use
    obtain ⟨hanswers, hlast⟩ := ih hnext
    exact ⟨congrArg₂ List.cons hanswer hanswers, hlast⟩

/-- A call that gives a scheme other than that of its memo changes no memo. -/
theorem step_of_mismatch {use : MemoUse ι} {given : Scheme} (hgiven : use.given? = some given)
    (h : given ≠ (memos use.memo).scheme) : (step memos use).2 = memos := by
  cases use with
  | groups argument scheme i =>
    obtain rfl : scheme = some given := hgiven
    have hkept : (settle (memos i) (mergeGroups argument (some given) (some (memos i)))).2 =
        memos i := congrArg Prod.snd (settle_callWith_of_ne h argument)
    exact (congrArg (Function.update memos i) hkept).trans (Function.update_eq_self i memos)
  | classText argument scheme i =>
    obtain rfl : scheme = some given := hgiven
    have hkept : (settle (memos i) (mergeClasses argument (some given) (some (memos i)))).2 =
        memos i := congrArg Prod.snd (settle_callWith_of_ne h argument)
    exact (congrArg (Function.update memos i) hkept).trans (Function.update_eq_self i memos)
  | clear i => cases hgiven

/-- Any number of memos, each with its scheme and its bound, are used in any
    order. What each call answers is what it answers without a memo under
    the scheme of its memo, or that the scheme of the caller does not match.
    A call of the latter kind, at any time, leaves all memos as they were. -/
theorem answers_eq_plain (schemes : ι → Scheme) (bounds : ι → Option Int)
    (uses : List (MemoUse ι)) :
    (run (fun i => Memo.fresh (schemes i) (bounds i)) uses).1 =
        uses.map (plainAnswer schemes) ∧
      ∀ use given, use.given? = some given → given ≠ schemes use.memo →
        (step (run (fun i => Memo.fresh (schemes i) (bounds i)) uses).2 use).2 =
          (run (fun i => Memo.fresh (schemes i) (bounds i)) uses).2 := by
  obtain ⟨hanswers, hsound⟩ :=
    run_of_sound (fun i => Memo.sound_fresh (schemes i) (bounds i)) uses
  refine ⟨hanswers, ?_⟩
  intro use given hgiven hne
  exact step_of_mismatch hgiven (by rwa [(hsound use.memo).scheme_eq])

/-! ## A program with two memos -/

/-- A scheme with another sentinel and shorter group hashes than those of
    the default one. -/
def shortScheme : Scheme where
  sentinel := ['c']
  groupWidth := 2
  declarationWidth := 2
  supported := []
  sentinel_valid := by decide
  groupWidth_pos := by decide
  declarationWidth_pos := by decide

/-- Two schemes, one for each memo. -/
def twoSchemes : Bool → Scheme
  | true => .default
  | false => shortScheme

/-- Room for one text in one memo, and for none in the other. -/
def twoBounds : Bool → Option Int
  | true => some 1
  | false => some (-1)

/-- The same texts are merged with both memos, one of which is cleared. -/
def twoMemoUses : List (MemoUse Bool) :=
  [.groups (.list [.text "cab11 x".toList, .text "cab22".toList]) none true,
   .classText (.list [.text "cab11 x".toList, .text "cab22".toList]) (some shortScheme) false,
   .clear true,
   .classText (.list [.text "cab11 x".toList, .text "cab22".toList]) none true]

theorem answers_eq_plain_two :
    (run (fun i => Memo.fresh (twoSchemes i) (twoBounds i)) twoMemoUses).1 =
        twoMemoUses.map (plainAnswer twoSchemes) ∧
      shortScheme ≠ .default ∧
      (step (run (fun i => Memo.fresh (twoSchemes i) (twoBounds i)) twoMemoUses).2
          (.groups (.text ['x']) (some shortScheme) true)).2 =
        (run (fun i => Memo.fresh (twoSchemes i) (twoBounds i)) twoMemoUses).2 := by
  have hne : shortScheme ≠ .default := by decide
  obtain ⟨hanswers, hunchanged⟩ := answers_eq_plain twoSchemes twoBounds twoMemoUses
  exact ⟨hanswers, hne, hunchanged (.groups (.text ['x']) (some shortScheme) true) _ rfl hne⟩

end MemoUse

end StyleSlots
