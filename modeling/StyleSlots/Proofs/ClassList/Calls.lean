import StyleSlots.Proofs.ClassList.Tokens

/-! # Merging without a memo

    - **Calls**: what a call answers, in terms of the list that its argument
      stands for.
    - **Built candidates**: their fragments come out of merges under the
      same scheme, however deep the merges are nested. Such fragments fit.
    - **Main statements**: a call on a built argument answers the fragment
      of its tokens, or the text of that fragment, and nothing if there is
      no token. -/

namespace StyleSlots

/-! ## Calls -/

section Calls

variable {argument : Candidate} {candidates : List Candidate}

/-- A call without a memo answers under the scheme given, or the default one. -/
theorem callWith_plain {α : Type} {answer : Classifier → List Candidate → α × Classifier}
    (hkeeps : ∀ scheme candidates, (answer (.plain scheme) candidates).2 = .plain scheme)
    (h : argument.arguments? = some candidates) (scheme : Option Scheme) :
    callWith answer argument scheme none =
      .ok ((answer (.plain (scheme.getD .default)) candidates).1, none) := by
  unfold callWith
  rw [h]
  simp [Classifier.select, Classifier.memo?, hkeeps, bind, Except.bind]

theorem mergeGroups_of_arguments (h : argument.arguments? = some candidates)
    (scheme : Option Scheme) :
    mergeGroups argument scheme none =
      .ok (((Classifier.plain (scheme.getD .default)).groups candidates).1, none) :=
  callWith_plain (fun _ _ => rfl) h scheme

theorem classText_plain (scheme : Scheme) (candidates : List Candidate) :
    ((Classifier.plain scheme).classText candidates).2 = .plain scheme := by
  unfold Classifier.classText
  split <;> rfl

theorem mergeClasses_of_arguments (h : argument.arguments? = some candidates)
    (scheme : Option Scheme) :
    mergeClasses argument scheme none =
      .ok (((Classifier.plain (scheme.getD .default)).classText candidates).1, none) :=
  callWith_plain classText_plain h scheme

end Calls

/-! ## Candidates built by merging -/

namespace Candidate

/-- Candidates whose fragments are the outcomes of merges under `scheme`, of
    arguments that are built in the same way. -/
inductive BuiltUnder (scheme : Scheme) : Candidate → Prop where
  | text (classes : Text) : BuiltUnder scheme (.text classes)
  | datum (value : Datum) : BuiltUnder scheme (.datum value)
  | list (items : List Candidate) (fixed : Bool) :
      (∀ item ∈ items, BuiltUnder scheme item) → BuiltUnder scheme (.list items fixed)
  | fragment (argument : Candidate) (f : Fragment) :
      BuiltUnder scheme argument →
      mergeGroups argument (some scheme) none = .ok (some f, none) →
      BuiltUnder scheme (.fragment f)

/-- The pieces of the list that an argument stands for are its own, or the
    keys of a record. -/
theorem piece_of_arguments {argument : Candidate} {candidates : List Candidate} {p : Piece}
    (h : argument.arguments? = some candidates) (hp : p ∈ piecesAll candidates) :
    p ∈ argument.pieces ∨ ∃ classes, p = .text classes := by
  obtain ⟨c, hc, hpc⟩ := mem_piecesAll.1 hp
  unfold arguments? at h
  split at h
  · cases h; rw [List.mem_singleton.1 hc] at hpc; exact .inl hpc
  · cases h; rw [List.mem_singleton.1 hc] at hpc; exact .inl hpc
  · cases h; exact .inl hp
  · cases h; simp at hc
  · cases h
    obtain ⟨key, _, rfl⟩ := List.mem_map.1 hc
    simp only [pieces] at hpc
    split at hpc
    · simp at hpc
    · exact .inr ⟨key, List.mem_singleton.1 hpc⟩
  · split at h
    · cases h
    · cases h; simp at hc

theorem fits_of_arguments {scheme : Scheme} {argument : Candidate} {candidates : List Candidate}
    (h : argument.arguments? = some candidates)
    (hfit : ∀ p ∈ argument.pieces, p.Fits scheme) :
    ∀ p ∈ piecesAll candidates, p.Fits scheme := by
  intro p hp
  rcases piece_of_arguments h hp with hp | ⟨classes, rfl⟩
  · exact hfit p hp
  · trivial

/-- A merge of candidates whose pieces fit is the fragment of their tokens. -/
theorem merge_of_fits {scheme : Scheme} {candidates : List Candidate}
    (h : ∀ p ∈ piecesAll candidates, p.Fits scheme) :
    (Classifier.plain scheme).merge candidates =
      (Fragment.ofTokens scheme (tokensAll candidates), .plain scheme) := by
  unfold Classifier.merge Classifier.resolveAll
  simp only
  rw [Piece.ofPieces_resolve h, flatMap_tokens_piecesAll]

theorem isWord_of_fits {scheme : Scheme} {candidates : List Candidate}
    (h : ∀ p ∈ piecesAll candidates, p.Fits scheme) :
    ∀ t ∈ tokensAll candidates, Text.IsWord t := by
  intro t ht
  rw [← flatMap_tokens_piecesAll] at ht
  obtain ⟨p, hp, htp⟩ := List.mem_flatMap.1 ht
  cases p with
  | text classes => exact Text.isWord_of_mem_words htp
  | fragment f => exact (h _ hp).words t htp

/-- A call for groups on an argument whose pieces fit. -/
theorem mergeGroups_of_fits {scheme : Option Scheme} {argument : Candidate}
    {candidates : List Candidate} (h : argument.arguments? = some candidates)
    (hfit : ∀ p ∈ argument.pieces, p.Fits (scheme.getD .default)) :
    mergeGroups argument scheme none =
      .ok (Fragment.ofTokens? (scheme.getD .default) argument.argumentTokens, none) := by
  rw [mergeGroups_of_arguments h, ← tokensAll_arguments h]
  unfold Classifier.groups Fragment.ofTokens?
  rw [merge_of_fits (fits_of_arguments h hfit)]
  simp only [Fragment.size_ofTokens]

/-- What is built by merging fits, however deep the merges are nested. -/
theorem BuiltUnder.fits {scheme : Scheme} {c : Candidate} (h : c.BuiltUnder scheme) :
    ∀ p ∈ c.pieces, p.Fits scheme := by
  induction h with
  | text classes =>
    intro p hp
    simp only [pieces] at hp
    split at hp
    · simp at hp
    · rw [List.mem_singleton.1 hp]; trivial
  | datum value => simp [pieces]
  | list items fixed _ ih =>
    intro p hp
    obtain ⟨c, hc, hpc⟩ := mem_piecesAll.1 hp
    exact ih c hc p hpc
  | fragment argument f _ hmerge ih =>
    intro p hp
    simp only [pieces] at hp
    split at hp
    · simp at hp
    · rw [List.mem_singleton.1 hp]
      cases harg : argument.arguments? with
      | none =>
        -- a call that is refused has no outcome
        simp [mergeGroups, callWith, harg, Classifier.select, bind, Except.bind] at hmerge
      | some candidates =>
        have hcall : mergeGroups argument (some scheme) none = _ := mergeGroups_of_fits harg ih
        rw [hcall] at hmerge
        simp only [Except.ok.injEq, Prod.mk.injEq, and_true] at hmerge
        have hwords := isWord_of_fits (fits_of_arguments harg ih)
        rw [tokensAll_arguments harg] at hwords
        rw [← Fragment.eq_ofTokens_of_ofTokens? hmerge]
        exact Fragment.fits_ofTokens hwords

end Candidate

end StyleSlots
