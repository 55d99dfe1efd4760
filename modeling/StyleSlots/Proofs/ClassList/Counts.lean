import Mathlib.Data.List.DropRight
import StyleSlots.Proofs.ClassList.Memos
import StyleSlots.Proofs.Ordered.Insertions

/-! # What a memo counts

    A call site chooses the bound of a memo by what the memo counts, so the
    counts have to be those of its own look-ups.

    - **Look-ups**: a call looks up the class texts of its candidates, one
      after the other and as often as they occur. One that is refused, or
      that is answered without a merge, looks up nothing.
    - **Invariant**: `Memo.Counts`, what the counts and the size of a memo are
      when given texts have been looked up since it was last cleared.
    - **Main statement**: `counts_exact`, every memo of a program counts the
      look-ups of the calls that were made with it, whatever its bound. -/

namespace StyleSlots

/-! ## The class texts of candidates -/

namespace Candidate

mutual

/-- The class texts of a candidate that are not empty, from left to right. -/
def classTexts : Candidate → List Text
  | text classes => if classes.isEmpty then [] else [classes]
  | fragment _ => []
  | list items _ => classTextsAll items
  | datum _ => []

/-- The class texts of a list of candidates. -/
def classTextsAll : List Candidate → List Text
  | [] => []
  | item :: more => classTexts item ++ classTextsAll more

end

/-- The class texts of the argument of a merge, where a record stands for its
    keys. -/
def argumentTexts : Candidate → List Text
  | datum (.record keys _) => keys.filter (! ·.isEmpty)
  | candidate => candidate.classTexts

/-- Whether a candidate is a text without blanks. -/
def isUnbroken : Candidate → Bool
  | text classes => ! classes.any isBlank
  | _ => false

/-- Whether a list is a single candidate that needs no merge: one that counts
    as false, or a text without blanks. -/
def needsNoMerge : List Candidate → Bool
  | [only] => ! only.truthy || only.isUnbroken
  | _ => false

/-- The class texts of candidates that are merged into a class text. -/
def mergedTexts (candidates : List Candidate) : List Text :=
  if needsNoMerge candidates then [] else classTextsAll candidates

theorem classTextsAll_map_text (ts : List Text) :
    classTextsAll (ts.map text) = ts.filter (! ·.isEmpty) := by
  induction ts with
  | nil => rfl
  | cons t ts ih =>
    rw [List.map_cons, classTextsAll, classTexts, ih, List.filter_cons]
    cases t.isEmpty <;> rfl

/-- The list that an argument stands for has the class texts of the argument. -/
theorem classTextsAll_arguments {argument : Candidate} {candidates : List Candidate}
    (h : argument.arguments? = some candidates) :
    classTextsAll candidates = argument.argumentTexts := by
  unfold arguments? at h
  split at h
  · cases h
    exact List.append_nil _
  · cases h
    rfl
  · cases h
    rfl
  · cases h
    rfl
  · cases h
    exact classTextsAll_map_text _
  · next value _ hrecord =>
    split at h
    · cases h
    · cases h
      -- a false datum that is no record has no class texts either
      cases value <;> first | rfl | exact absurd rfl (hrecord _ _)

/-- What counts as false has no class text. -/
theorem classTexts_of_not_truthy {c : Candidate} (h : c.truthy = false) : c.classTexts = [] := by
  cases c with
  | text classes => simpa [truthy, classTexts] using h
  | fragment f => rfl
  | list items fixed =>
    have hitems : items = [] := by simpa [truthy] using h
    rw [hitems]
    rfl
  | datum value => rfl

end Candidate

/-- The class text that a piece is. -/
def Piece.text? : Piece → Option Text
  | text classes => some classes
  | fragment _ => none

namespace Candidate

mutual

theorem filterMap_text?_pieces : ∀ c : Candidate, c.pieces.filterMap Piece.text? = c.classTexts
  | text classes => by
    rw [pieces, classTexts]
    split <;> rfl
  | fragment f => by
    rw [pieces, classTexts]
    split <;> rfl
  | list items _ => filterMap_text?_piecesAll items
  | datum _ => rfl

/-- The texts among the pieces of candidates are their class texts. -/
theorem filterMap_text?_piecesAll : ∀ cs : List Candidate,
    (piecesAll cs).filterMap Piece.text? = classTextsAll cs
  | [] => rfl
  | c :: cs => by
    rw [piecesAll, List.filterMap_append, filterMap_text?_pieces c, filterMap_text?_piecesAll cs,
      classTextsAll]

end

/-- Only the empty list and a single candidate that needs no merge are
    answered without one. -/
theorem isSome_shortcut? (candidates : List Candidate) :
    (Classifier.shortcut? candidates).isSome = (candidates.isEmpty || needsNoMerge candidates) := by
  match candidates with
  | [] => rfl
  | [only] =>
    cases htruthy : only.truthy with
    | false => simp [Classifier.shortcut?, needsNoMerge, htruthy]
    | true =>
      cases only with
      | text classes =>
        cases hblank : classes.any isBlank <;>
          simp [Classifier.shortcut?, needsNoMerge, isUnbroken, htruthy, hblank]
      | _ => simp [Classifier.shortcut?, needsNoMerge, isUnbroken, htruthy]
  | _ :: _ :: _ => simp [Classifier.shortcut?, needsNoMerge]

end Candidate

/-! ## Look-ups -/

namespace Memo

/-- A memo after texts have been looked up in it, first to last. -/
def lookUpAll (m : Memo) (texts : List Text) : Memo :=
  texts.foldl (fun m classes => (m.classify classes).2) m

/-- To resolve pieces is to look up the texts among them. -/
theorem resolveAll_snd (m : Memo) (pieces : List Piece) :
    (m.resolveAll pieces).2 = m.lookUpAll (pieces.filterMap Piece.text?) := by
  induction pieces generalizing m with
  | nil => rfl
  | cons piece more ih => cases piece <;> exact ih _

end Memo

namespace Classifier

/-- An answer looks up the given texts of its candidates, and does nothing else
    to a memo. -/
def LooksUp {α : Type} (answer : Classifier → List Candidate → α × Classifier)
    (texts : List Candidate → List Text) : Prop :=
  ∀ candidates (m : Memo),
    (answer (.remembering m) candidates).2 = .remembering (m.lookUpAll (texts candidates))

theorem looksUp_merge : LooksUp merge Candidate.classTextsAll := by
  intro candidates m
  rw [← Candidate.filterMap_text?_piecesAll, ← Memo.resolveAll_snd]
  rfl

theorem looksUp_groups : LooksUp groups Candidate.classTextsAll := looksUp_merge

theorem looksUp_classText : LooksUp classText Candidate.mergedTexts := by
  intro candidates m
  have hshort := Candidate.isSome_shortcut? candidates
  unfold classText Candidate.mergedTexts
  cases hanswer : shortcut? candidates with
  | some answer =>
    rw [hanswer, Option.isSome_some] at hshort
    cases candidates with
    | nil => rfl
    | cons first more => rw [if_pos (by simpa using hshort.symm)]; rfl
  | none =>
    rw [hanswer, Option.isSome_none, eq_comm, Bool.or_eq_false_iff] at hshort
    rw [hshort.2]
    exact looksUp_merge candidates m

end Classifier

section Calls

variable {α : Type} {answer : Classifier → List Candidate → α × Classifier}
  {texts : List Candidate → List Text}

/-- What a call leaves of its memo: what its look-ups leave, if it is answered,
    and the memo as it was, if it is refused. -/
theorem settle_callWith_snd (h : Classifier.LooksUp answer texts) {argument : Candidate}
    {looked : List Text} (hlooked : ∀ cs, argument.arguments? = some cs → texts cs = looked)
    (given : Option Scheme) (m : Memo) :
    (settle m (callWith answer argument given (some m))).2 =
      m.lookUpAll
        (if (settle m (callWith answer argument given (some m))).1.isOk then looked else []) := by
  unfold callWith
  cases hselect : Classifier.select given (some m) with
  | error fault => rfl
  | ok classifier =>
    obtain rfl : classifier = .remembering m := by
      unfold Classifier.select at hselect
      grind
    cases hlist : argument.arguments? with
    | none => rfl
    | some candidates =>
      have hafter := h candidates m
      rw [hlooked candidates hlist] at hafter
      simp only [bind, Except.bind, settle, hafter]
      rfl

end Calls

/-! ## Counts -/

namespace Memo

/-- What the counts and the size of a memo are if these texts have been looked
    up since it was last cleared. -/
structure Counts (bound : Option Nat) (texts : List Text) (m : Memo) : Prop where
  bound_eq : m.bound = bound
  counts   : m.hits + m.misses = texts.length
  /-- No text is held twice. -/
  nodup    : (m.entries.map Prod.fst).Nodup
  size_eq  : m.size = bound.elim m.misses (min · m.misses)
  /-- Without a bound nothing is given up. -/
  held     : bound = none → ∀ t, t ∈ m.entries.map Prod.fst ↔ t ∈ texts

theorem counts_fresh (scheme : Scheme) (bound : Option Int) :
    (fresh scheme bound).Counts (bound.map Int.toNat) [] where
  bound_eq := rfl
  counts := rfl
  nodup := List.nodup_nil
  size_eq := by cases bound <;> simp [fresh, size]
  held := fun _ _ => Iff.rfl

/-- A text that is found changes its place among the texts held and nothing
    else. -/
theorem perm_front {entries : List (Text × List Classified)} {entry : Text × List Classified}
    (hnodup : (entries.map Prod.fst).Nodup) (h : entry ∈ entries) :
    (entry :: entries.filter (·.1 ≠ entry.1)).Perm entries := by
  have hentries : entries.Nodup := hnodup.of_map Prod.fst
  have hfront : (entry :: entries.filter (·.1 ≠ entry.1)).Nodup := by
    refine List.nodup_cons.2 ⟨?_, hentries.filter _⟩
    simp
  rw [List.perm_ext_iff_of_nodup hfront hentries]
  intro other
  constructor
  · intro hother
    rcases List.mem_cons.1 hother with rfl | hother
    · exact h
    · exact (List.mem_filter.1 hother).1
  · intro hother
    by_cases hkey : other.1 = entry.1
    · -- the keys are distinct, so only `entry` has its key
      obtain rfl : other = entry := List.inj_on_of_nodup_map hnodup hother h hkey
      exact List.mem_cons_self ..
    · exact List.mem_cons_of_mem _ (List.mem_filter.2 ⟨hother, by simpa using hkey⟩)

namespace Counts

variable {bound : Option Nat} {texts : List Text} {m : Memo}

theorem clear (h : m.Counts bound texts) : m.clear.Counts bound [] where
  bound_eq := h.bound_eq
  counts := rfl
  nodup := List.nodup_nil
  size_eq := by cases bound <;> simp [Memo.clear, size]
  held := fun _ _ => Iff.rfl

/-- A look-up is counted once. -/
theorem classify (h : m.Counts bound texts) (classes : Text) :
    (m.classify classes).2.Counts bound (texts ++ [classes]) := by
  unfold Memo.classify
  cases hfind : m.entries.find? (·.1 = classes) with
  | some entry =>
    have hmem := List.mem_of_find?_eq_some hfind
    obtain rfl : entry.1 = classes := by simpa using List.find?_some hfind
    -- the same texts are held as before, in another order
    have hperm := perm_front h.nodup hmem
    refine ⟨h.bound_eq, ?_, ?_, ?_, ?_⟩
    · have hcounts := h.counts
      simp only [List.length_append, List.length_singleton]
      omega
    · exact ((hperm.map Prod.fst).nodup_iff).2 h.nodup
    · exact hperm.length_eq.trans h.size_eq
    · intro hbound t
      have hheld := h.held hbound
      have hclasses : entry.1 ∈ texts := (hheld _).1 (List.mem_map_of_mem hmem)
      rw [(hperm.map Prod.fst).mem_iff, hheld t]
      simp only [List.mem_append, List.mem_singleton]
      exact ⟨.inl, fun ht => ht.elim id fun heq => heq ▸ hclasses⟩
  | none =>
    have hnew : classes ∉ m.entries.map Prod.fst := by
      intro hmem
      obtain ⟨entry, hentry, hkey⟩ := List.mem_map.1 hmem
      have hne := List.find?_eq_none.1 hfind entry hentry
      simp [hkey] at hne
    have hcounts := h.counts
    have hsize : m.entries.length = bound.elim m.misses (min · m.misses) := h.size_eq
    have hnodup := List.nodup_cons.2 ⟨hnew, h.nodup⟩
    refine ⟨h.bound_eq, ?_, ?_, ?_, ?_⟩
    · simp only [List.length_append, List.length_singleton]
      omega
    · -- what is given up stands at the end
      rw [h.bound_eq]
      cases bound with
      | none => exact hnodup
      | some n =>
        simp only [limit, List.map_take]
        exact hnodup.sublist (List.take_sublist _ _)
    · rw [size, h.bound_eq]
      cases bound with
      | none => simpa [limit] using hsize
      | some n =>
        rw [Option.elim_some] at hsize
        simp only [limit, Option.elim_some, List.length_take, List.length_cons]
        omega
    · intro hbound t
      have hheld := h.held hbound t
      rw [h.bound_eq, hbound]
      simp only [limit, List.map_cons, List.mem_cons, hheld, List.mem_append, List.not_mem_nil,
        or_false]
      exact or_comm

/-- Look-ups are counted one by one. -/
theorem lookUpAll (h : m.Counts bound texts) (looked : List Text) :
    (m.lookUpAll looked).Counts bound (texts ++ looked) := by
  induction looked generalizing m texts with
  | nil => rwa [List.append_nil]
  | cons first more ih =>
    rw [List.append_cons]
    exact ih (h.classify first)

/-- Without a bound there are as many misses as texts. -/
theorem misses_eq (h : m.Counts none texts) : m.misses = (distinct texts).length := by
  have hkeys : (m.entries.map Prod.fst).Perm (distinct texts) := by
    rw [List.perm_ext_iff_of_nodup h.nodup (nodup_distinct texts)]
    intro t
    rw [h.held rfl t, mem_distinct]
  have hsize : m.size = m.misses := h.size_eq
  rw [← hsize, ← hkeys.length_eq, List.length_map]
  rfl

end Counts

end Memo

/-! ## Programs -/

/-- Whether a use was not refused. -/
def MemoAnswer.isGranted : MemoAnswer → Bool
  | groups found => found.isOk
  | classText found => found.isOk
  | cleared => true

namespace MemoUse

variable {ι : Type}

/-- Whether a memo is cleared. -/
def isClear : MemoUse ι → Bool
  | clear _ => true
  | _ => false

/-- The class texts that a use looks up if it is not refused. -/
def texts : MemoUse ι → List Text
  | groups argument _ _ => argument.argumentTexts
  | classText argument _ _ =>
    if argument.arguments?.any Candidate.needsNoMerge then [] else argument.argumentTexts
  | clear _ => []

/-- The class texts that a use with this answer has looked up. -/
def lookedUp (use : MemoUse ι) (answer : MemoAnswer) : List Text :=
  if answer.isGranted then use.texts else []

variable [DecidableEq ι]

/-- The class texts that were looked up in a memo since it was last cleared,
    in a program of which all uses are known with their answers. -/
def lookedUpSinceClear (i : ι) (record : List (MemoUse ι × MemoAnswer)) : List Text :=
  ((record.filter (·.1.memo = i)).rtakeWhile (! ·.1.isClear)).flatMap fun entry =>
    entry.1.lookedUp entry.2

/-- A call changes its memo by its look-ups, and no other memo. -/
theorem step_snd (memos : ι → Memo) {use : MemoUse ι} (h : use.isClear = false) :
    (step memos use).2 = Function.update memos use.memo
      ((memos use.memo).lookUpAll (use.lookedUp (step memos use).1)) := by
  cases use with
  | groups argument given i =>
    have hlooked : ∀ cs, argument.arguments? = some cs →
        Candidate.classTextsAll cs = argument.argumentTexts :=
      fun _ => Candidate.classTextsAll_arguments
    exact congrArg (Function.update memos i)
      (settle_callWith_snd Classifier.looksUp_groups hlooked given (memos i))
  | classText argument given i =>
    have hlooked : ∀ cs, argument.arguments? = some cs → Candidate.mergedTexts cs =
        if argument.arguments?.any Candidate.needsNoMerge then [] else argument.argumentTexts := by
      intro cs hcs
      rw [hcs, Candidate.mergedTexts, Candidate.classTextsAll_arguments hcs]
      rfl
    exact congrArg (Function.update memos i)
      (settle_callWith_snd Classifier.looksUp_classText hlooked given (memos i))
  | clear i => cases h

theorem run_cons (memos : ι → Memo) (use : MemoUse ι) (more : List (MemoUse ι)) :
    run memos (use :: more) =
      ((step memos use).1 :: (run (step memos use).2 more).1,
        (run (step memos use).2 more).2) := rfl

theorem run_concat (memos : ι → Memo) (uses : List (MemoUse ι)) (use : MemoUse ι) :
    run memos (uses ++ [use]) =
      ((run memos uses).1 ++ [(step (run memos uses).2 use).1],
        (step (run memos uses).2 use).2) := by
  induction uses generalizing memos with
  | nil => rfl
  | cons first more ih =>
    rw [List.cons_append, run_cons, ih, run_cons]
    rfl

theorem length_run (memos : ι → Memo) (uses : List (MemoUse ι)) :
    (run memos uses).1.length = uses.length := by
  induction uses generalizing memos with
  | nil => rfl
  | cons use more ih => exact congrArg (· + 1) (ih _)

/-- The uses of a program with their answers. -/
def record (memos : ι → Memo) (uses : List (MemoUse ι)) : List (MemoUse ι × MemoAnswer) :=
  uses.zip (run memos uses).1

theorem record_concat (memos : ι → Memo) (uses : List (MemoUse ι)) (use : MemoUse ι) :
    record memos (uses ++ [use]) =
      record memos uses ++ [(use, (step (run memos uses).2 use).1)] := by
  rw [record, run_concat, List.zip_append (length_run memos uses).symm]
  rfl

variable {i : ι} {entries : List (MemoUse ι × MemoAnswer)} {entry : MemoUse ι × MemoAnswer}

theorem lookedUpSinceClear_concat_of_ne (h : entry.1.memo ≠ i) :
    lookedUpSinceClear i (entries ++ [entry]) = lookedUpSinceClear i entries := by
  simp [lookedUpSinceClear, List.filter_append, h]

theorem lookedUpSinceClear_concat_of_clear (h : entry.1.memo = i)
    (hclear : entry.1.isClear = true) : lookedUpSinceClear i (entries ++ [entry]) = [] := by
  simp [lookedUpSinceClear, List.filter_append, h, hclear]

theorem lookedUpSinceClear_concat_of_call (h : entry.1.memo = i) (hcall : entry.1.isClear = false) :
    lookedUpSinceClear i (entries ++ [entry]) =
      lookedUpSinceClear i entries ++ entry.1.lookedUp entry.2 := by
  simp [lookedUpSinceClear, List.filter_append, h, hcall]

/-- Every use keeps the counts of all memos. -/
theorem counts_run {memos : ι → Memo} {bounds : ι → Option Nat}
    (h : ∀ i, (memos i).Counts (bounds i) []) (uses : List (MemoUse ι)) (i : ι) :
    ((run memos uses).2 i).Counts (bounds i) (lookedUpSinceClear i (record memos uses)) := by
  induction uses using List.reverseRecOn with
  | nil => exact h i
  | append_singleton uses use ih =>
    rw [run_concat, record_concat]
    by_cases hi : use.memo = i
    · cases hclear : use.isClear with
      | true =>
        rw [lookedUpSinceClear_concat_of_clear hi hclear]
        cases use with
        | clear j =>
          obtain rfl : j = i := hi
          have hafter : (step (run memos uses).2 (clear j)).2 j = ((run memos uses).2 j).clear :=
            Function.update_self ..
          rw [hafter]
          exact ih.clear
        | _ => cases hclear
      | false =>
        rw [lookedUpSinceClear_concat_of_call hi hclear, step_snd _ hclear, hi,
          Function.update_self]
        exact ih.lookUpAll _
    · -- another memo is used
      have hother : (step (run memos uses).2 use).2 i = (run memos uses).2 i := by
        cases use <;> exact Function.update_of_ne (Ne.symm hi) ..
      rw [lookedUpSinceClear_concat_of_ne hi, hother]
      exact ih

/-- Any number of memos, each with its scheme and its bound, are used in any
    order. Then each of them has counted, as hits and misses, the class texts
    that its calls have looked up since it was last cleared. It holds as many
    texts as there were misses, or as many as its bound allows; without a
    bound each text has been missed once.

    A call changes its memo by its look-ups only. Fragments and what counts as
    false have nothing to look up. -/
theorem counts_exact (schemes : ι → Scheme) (bounds : ι → Option Int) (uses : List (MemoUse ι))
    (i : ι) :
    let memos := fun j => Memo.fresh (schemes j) (bounds j)
    let after := (run memos uses).2
    let looked := lookedUpSinceClear i (record memos uses)
    (after i).hits + (after i).misses = looked.length ∧
    (match bounds i with
    | none => (after i).size = (after i).misses ∧ (after i).misses = (distinct looked).length
    | some n => ((after i).size : Int) = min (max n 0) (after i).misses) ∧
    (∀ use : MemoUse ι, use.isClear = false →
      (step after use).2 = Function.update after use.memo
        ((after use.memo).lookUpAll (use.lookedUp (step after use).1))) ∧
    (∀ f, (Candidate.fragment f).classTexts = []) ∧
    ∀ c : Candidate, c.truthy = false → c.classTexts = [] := by
  intro memos after looked
  have hcounts : (after i).Counts ((bounds i).map Int.toNat) looked :=
    counts_run (fun j => Memo.counts_fresh (schemes j) (bounds j)) uses i
  refine ⟨hcounts.counts, ?_, fun use => step_snd after, fun f => rfl,
    fun c => Candidate.classTexts_of_not_truthy⟩
  cases hbound : bounds i with
  | none =>
    rw [hbound] at hcounts
    exact ⟨hcounts.size_eq, hcounts.misses_eq⟩
  | some n =>
    rw [hbound] at hcounts
    have hsize : (after i).size = min n.toNat (after i).misses := hcounts.size_eq
    simp only
    omega

/-- A memo with room for one text, next to one with room for none. -/
def narrowBounds : Bool → Option Int
  | true => some 1
  | false => some (-1)

/-- Texts that repeat and take each other's place, around what is not looked
    up: fragments, a missing value, a lone word, and calls that are refused. -/
def narrowUses : List (MemoUse Bool) :=
  [.groups (.text ['x']) none true, .clear true,
   .groups (.list [.text "a b".toList, .fragment (.ofLists [['y']] []),
     .list [.text "a b".toList, .datum .absent, .text ['c'], .text []]]) none true,
   .classText (.text ['c']) none true,
   .classText (.list [.text ['c'], .text ['d']]) none false,
   .classText (.list [.text ['c'], .text ['d']]) (some shortScheme) true,
   .groups (.datum (.integer 1)) none true,
   .classText (.list [.list [.text "a b".toList]]) (some .default) true]

theorem counts_exact_narrow :
    let memos := fun j => Memo.fresh .default (narrowBounds j)
    let after := (run memos narrowUses).2 true
    lookedUpSinceClear true (record memos narrowUses) =
        ["a b".toList, "a b".toList, ['c'], "a b".toList] ∧
      after.hits + after.misses = 4 ∧ after.misses = 3 ∧ after.size = 1 := by
  intro memos after
  have hlooked : lookedUpSinceClear true (record memos narrowUses) =
      ["a b".toList, "a b".toList, ['c'], "a b".toList] := by decide
  have hmisses : after.misses = 3 := by decide
  obtain ⟨hcounts, hsize, -⟩ := counts_exact (fun _ => .default) narrowBounds narrowUses true
  have hbound : (after.size : Int) = min (max 1 0) after.misses := hsize
  refine ⟨hlooked, hcounts.trans (congrArg List.length hlooked), hmisses, ?_⟩
  rw [hmisses] at hbound
  omega

end MemoUse

end StyleSlots
