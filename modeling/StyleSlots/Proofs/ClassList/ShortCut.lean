import StyleSlots.Proofs.ClassList.Composition
import StyleSlots.Proofs.ClassList.Memos

/-! # Groups or text

    A call site asks either for the groups of its candidates or for their
    text. The text is that of the groups, also where it is answered without
    a merge.

    - **Tokens**: a merge adds no token to those of its pieces. So where no
      fragment holds an empty token, only an empty fragment has no text.
    - **Memos**: a memo that has been used in any way is sound.
    - **Main statement**: `mergeClasses_of_mergeGroups`, both calls on any
      argument that stands for a list, with or without a memo. The fragments
      need not come out of a merge. -/

namespace StyleSlots

/-! ## Tokens of a merge -/

namespace Fragment

variable {scheme : Scheme}

theorem of_mem_tokens_insertMany {f g : Fragment} {classes : List Text}
    {groups : List (Text × Text)} {token : Text} (hc : g.classes = f.classes.insertMany classes)
    (hg : g.groups = f.groups.insertMany groups) (h : token ∈ g.tokens) :
    token ∈ f.tokens ∨ token ∈ classes ∨ ∃ key, (key, token) ∈ groups := by
  unfold tokens at h ⊢
  rw [List.mem_append, mem_values] at h ⊢
  rcases h with h | ⟨key, h⟩
  · rw [hc, OrderedSet.mem_insertMany] at h
    exact h.elim (fun h => .inl (.inl h)) fun h => .inr (.inl h)
  · rw [hg] at h
    rcases OrderedMap.of_mem_insertMany h with h | h
    · exact .inl (.inr ⟨key, h⟩)
    · exact .inr (.inr ⟨key, h⟩)

theorem of_mem_tokens_take {f : Fragment} {piece : Piece} {token : Text}
    (h : token ∈ (f.take (piece.resolve scheme)).tokens) :
    token ∈ f.tokens ∨ token ∈ piece.tokens := by
  cases piece with
  | text classes =>
    have hfits : (Piece.text classes).Fits scheme := trivial
    rw [Piece.take_resolve hfits] at h
    rcases of_mem_tokens_insertMany (insertMany_classes ..) (insertMany_groups ..) h
      with h | h | ⟨key, h⟩
    · exact .inl h
    · rw [plain?_classified] at h
      exact .inr (List.mem_filter.1 h).1
    · rw [grouped?_classified] at h
      exact .inr (mem_atomicPairs.1 h).1
  | fragment g =>
    rcases of_mem_tokens_insertMany rfl rfl h with h | h | h
    · exact .inl h
    · exact .inr (List.mem_append_left _ h)
    · exact .inr (List.mem_append_right _ (mem_values.2 h))

/-- Every token of a merge is one of a piece, whether the pieces fit or not. -/
theorem of_mem_tokens_ofPieces {pieces : List Piece} {token : Text}
    (h : token ∈ (ofPieces (pieces.map (Piece.resolve scheme))).tokens) :
    ∃ piece ∈ pieces, token ∈ piece.tokens := by
  induction pieces using List.reverseRecOn with
  | nil => simp [ofPieces, empty, tokens, OrderedSet.empty, OrderedMap.empty,
      OrderedMap.values] at h
  | append_singleton pieces piece ih =>
    unfold ofPieces at h ih
    rw [List.map_append, List.foldl_append] at h
    rcases of_mem_tokens_take h with h | h
    · obtain ⟨other, hother, htoken⟩ := ih h
      exact ⟨other, List.mem_append_left _ hother, htoken⟩
    · exact ⟨piece, by simp, h⟩

end Fragment

namespace Classifier

variable {scheme : Scheme} {candidates : List Candidate}

/-- The words of a text are not empty, so an empty token can only come out
    of a fragment. -/
theorem nil_notMem_tokens_merge
    (h : ∀ f, .fragment f ∈ Candidate.piecesAll candidates → [] ∉ f.tokens) :
    [] ∉ ((plain scheme).merge candidates).1.tokens := by
  intro hnil
  obtain ⟨piece, hpiece, htoken⟩ := Fragment.of_mem_tokens_ofPieces hnil
  cases piece with
  | text classes => exact (Text.isWord_of_mem_words htoken).ne_nil rfl
  | fragment f => exact h f hpiece htoken

/-- The text of a list of candidates is that of their groups. -/
theorem classText_eq_map_groups
    (h : ∀ f, .fragment f ∈ Candidate.piecesAll candidates → [] ∉ f.tokens) :
    ((plain scheme).classText candidates).1 =
      ((plain scheme).groups candidates).1.map Fragment.classText := by
  rw [classText_eq_merge, Fragment.nonempty?_classText (nil_notMem_tokens_merge h)]
  simp only [groups]
  split <;> rfl

/-- A text without blanks is answered as it is, and classifying and joining
    its words would give it again. -/
theorem shortcut?_text {classes : Text} (h : ∀ c ∈ classes, isBlank c = false) :
    shortcut? [.text classes] = some (nonempty? classes) ∧
      (Fragment.empty.insertMany (classify scheme classes)).classText = classes := by
  by_cases hempty : classes = []
  · subst hempty
    exact ⟨rfl, rfl⟩
  · have hnone : classes.any isBlank = false := by simpa using h
    constructor
    · simp [shortcut?, Candidate.truthy, nonempty?, hempty, hnone]
    · have hmerge : Fragment.empty.insertMany (classify scheme classes) =
          Fragment.ofTokens scheme classes.words := rfl
      rw [hmerge, Text.words_of_isWord ⟨hempty, h⟩, Fragment.classText,
        Fragment.tokens_ofTokens_singleton]
      rfl

end Classifier

/-! ## Memos in use -/

namespace Memo

/-- A memo with any scheme and bound, after any look-ups and clearings. -/
inductive Reachable : Memo → Prop where
  | fresh (scheme : Scheme) (bound : Option Int) : Reachable (fresh scheme bound)
  | classify {m : Memo} (classes : Text) : Reachable m → Reachable (m.classify classes).2
  | clear {m : Memo} : Reachable m → Reachable m.clear

theorem Reachable.sound {m : Memo} (h : m.Reachable) : m.Sound m.scheme := by
  induction h with
  | fresh scheme bound => exact sound_fresh scheme bound
  | classify classes _ ih =>
    have hafter := (ih.classify classes).2
    rwa [hafter.scheme_eq]
  | clear _ ih => exact ih.clear

end Memo

/-! ## Calls -/

section Calls

variable {α : Type} {answer : Classifier → List Candidate → α × Classifier}
  {argument : Candidate} {candidates : List Candidate} {given : Option Scheme}
  {memo : Option Memo}

/-- The scheme of a call: the one given, or that of the memo, or the default
    one. -/
def schemeOf (given : Option Scheme) (memo : Option Memo) : Scheme :=
  (given.or (memo.map Memo.scheme)).getD .default

/-- Only what counts as true and is neither a candidate nor a flag nor a
    record stands for no list. -/
theorem Candidate.arguments?_eq_none_iff :
    argument.arguments? = none ↔ ∃ value, argument = .datum value ∧ value.truthy = true ∧
      (∀ b, value ≠ .flag b) ∧ ∀ keys values, value ≠ .record keys values := by
  cases argument with
  | datum value => cases value <;> simp [arguments?]
  | _ => simp [arguments?]

/-- A call with a memo of its scheme, or with none, answers what it answers
    under the scheme without a memo. -/
theorem callWith_of_arguments (hanswer : Classifier.Transparent answer)
    (hlist : argument.arguments? = some candidates)
    (hmemo : ∀ m ∈ memo, m.Reachable ∧ ∀ own ∈ given, own = m.scheme) :
    ∃ after, callWith answer argument given memo =
      .ok ((answer (.plain (schemeOf given memo)) candidates).1, after) := by
  unfold callWith
  rw [hlist]
  cases memo with
  | none =>
    have hscheme : schemeOf given none = given.getD .default := by simp [schemeOf]
    rw [hscheme]
    exact ⟨_, rfl⟩
  | some m =>
    obtain ⟨hreach, hgiven⟩ := hmemo m rfl
    have hselect : Classifier.select given (some m) = .ok (.remembering m) ∧
        schemeOf given (some m) = m.scheme := by
      cases given with
      | none => exact ⟨rfl, rfl⟩
      | some own =>
        obtain rfl := hgiven own rfl
        exact ⟨if_pos rfl, rfl⟩
    obtain ⟨after, -, heq⟩ := hanswer m.scheme candidates m hreach.sound
    rw [hselect.1, hselect.2]
    simp only [bind, Except.bind, heq]
    exact ⟨_, rfl⟩

/-- An argument that stands for a list is merged into groups and into a text,
    with or without a memo, and the text is that of the groups. This holds
    for any fragments without empty tokens. A text without blanks, which is
    answered as it is, would come out of classifying and joining its words. -/
theorem mergeClasses_of_mergeGroups (hlist : argument.arguments? ≠ none)
    (hfull : ∀ f, .fragment f ∈ argument.pieces → [] ∉ f.tokens)
    (hmemo : ∀ m ∈ memo, m.Reachable ∧ ∀ own ∈ given, own = m.scheme) :
    (∃ found after after',
      mergeGroups argument given memo = .ok (found, after) ∧
      mergeClasses argument given memo = .ok (found.map Fragment.classText, after')) ∧
    ∀ scheme classes, (∀ c ∈ classes, isBlank c = false) →
      Classifier.shortcut? [.text classes] = some (Classifier.nonempty? classes) ∧
      (Fragment.empty.insertMany (classify scheme classes)).classText = classes := by
  obtain ⟨candidates, hcandidates⟩ := Option.ne_none_iff_exists'.1 hlist
  have hfullAll : ∀ f, .fragment f ∈ Candidate.piecesAll candidates → [] ∉ f.tokens := by
    intro f hf
    rcases Candidate.piece_of_arguments hcandidates hf with hf | ⟨classes, hclasses⟩
    · exact hfull f hf
    · cases hclasses
  obtain ⟨after, hgroups⟩ :=
    callWith_of_arguments Classifier.transparent_groups hcandidates hmemo
  obtain ⟨after', htext⟩ :=
    callWith_of_arguments Classifier.transparent_classText hcandidates hmemo
  rw [Classifier.classText_eq_map_groups hfullAll] at htext
  exact ⟨⟨_, after, after', hgroups, htext⟩, fun scheme classes h => Classifier.shortcut?_text h⟩

/-- A fragment that no merge leaves: an atomic name among its classes, and a
    name with a blank under a key that is not its own. -/
def oddFragment : Fragment :=
  .ofLists ["_aaaacccc".toList] [("_bbbb".toList, "a b".toList)]

/-- The fragment in a nested list, next to what stands for no class. -/
def oddArgument : Candidate :=
  .list [.text "x _aaaabbbb".toList, .datum .absent,
    .list [.fragment oddFragment, .datum (.flag true), .text " _aaaadddd x".toList]]

/-- A memo with room for one text, which it has looked up. -/
def usedMemo : Memo := ((Memo.fresh .default (some 1)).classify "x _aaaabbbb".toList).2

/-- One word, with a space without width in it. -/
def narrowWord : Text := "_aaaa\u200bbbb".toList

theorem mergeClasses_of_mergeGroups_odd :
    oddArgument.arguments? ≠ none ∧
      (∀ f, .fragment f ∈ oddArgument.pieces → [] ∉ f.tokens) ∧
      (usedMemo.Reachable ∧ Scheme.default = usedMemo.scheme) ∧
      (∃ found after after',
        mergeGroups oddArgument (some .default) (some usedMemo) = .ok (found, after) ∧
        mergeClasses oddArgument (some .default) (some usedMemo) =
          .ok (found.map Fragment.classText, after')) ∧
      Classifier.shortcut? [.text narrowWord] = some (some narrowWord) ∧
      (Fragment.empty.insertMany (classify .default narrowWord)).classText = narrowWord := by
  have hlist : oddArgument.arguments? ≠ none := by
    intro hnone
    obtain ⟨value, hvalue, -⟩ := Candidate.arguments?_eq_none_iff.1 hnone
    cases hvalue
  have hfull : ∀ f, .fragment f ∈ oddArgument.pieces → [] ∉ f.tokens := by
    intro f hf
    have hpieces : oddArgument.pieces = [.text "x _aaaabbbb".toList, .fragment oddFragment,
        .text " _aaaadddd x".toList] := by decide
    rw [hpieces] at hf
    obtain rfl : f = oddFragment := by simpa using hf
    decide
  have hreach : usedMemo.Reachable := .classify _ (.fresh .default (some 1))
  have hmemo : ∀ m ∈ some usedMemo,
      m.Reachable ∧ ∀ own ∈ some Scheme.default, own = m.scheme := by
    rintro m ⟨⟩
    refine ⟨hreach, ?_⟩
    rintro own ⟨⟩
    rfl
  have hany : narrowWord.any isBlank = false := by decide
  have hnarrow : ∀ c ∈ narrowWord, isBlank c = false := by simpa using hany
  obtain ⟨hcalls, hwords⟩ := mergeClasses_of_mergeGroups hlist hfull hmemo
  exact ⟨hlist, hfull, ⟨hreach, rfl⟩, hcalls, hwords .default narrowWord hnarrow⟩

example : (mergeClasses (.list [.text "x _aaaabbbb".toList,
      .list [.fragment (.ofLists ["_aaaacccc".toList] [("_bbbb".toList, "a b".toList)]),
        .text " _aaaadddd x".toList]]) none none).map Prod.fst =
    .ok (some "x _aaaacccc _aaaadddd a b".toList) := by decide

end Calls

end StyleSlots
