import StyleSlots.Proofs.ClassList.Calls

/-! # Merging in parts

    - **Short cut**: the text that a call answers without a merge is the one
      that a merge would have led to.
    - **Tokens of a part**: a part that has been merged stands for fewer
      tokens, and in another order, but for a merge of the whole it makes
      no difference.
    - **Main statement**: `merge_of_merged_part`, any part of a list of
      candidates may be merged first, into groups or into a text, or be put
      into a list of its own. -/

namespace StyleSlots

/-! ## Merging into a text -/

theorem Fragment.tokens_ofTokens_singleton (scheme : Scheme) (t : Text) :
    (ofTokens scheme [t]).tokens = [t] := by
  have hone : ofTokens scheme [t] = empty.insert (classified scheme t) := rfl
  rw [hone]
  unfold classified
  cases ClassName.groupKey? scheme t <;> rfl

namespace Classifier

theorem merge_of_no_pieces (scheme : Scheme) {candidates : List Candidate}
    (h : Candidate.piecesAll candidates = []) :
    ((plain scheme).merge candidates).1 = .empty := by
  unfold merge resolveAll
  rw [h]
  rfl

/-- A false candidate contributes nothing to a merge. -/
theorem pieces_of_not_truthy {c : Candidate} (h : c.truthy = false) : c.pieces = [] := by
  cases c with
  | text classes => simpa [Candidate.truthy, Candidate.pieces] using h
  | fragment f => simpa [Candidate.truthy, Candidate.pieces] using h
  | list items fixed =>
    have hitems : items = [] := by simpa [Candidate.truthy] using h
    simp [Candidate.pieces, hitems, Candidate.piecesAll]
  | datum value => rfl

/-- What is answered without a merge is what a merge would have led to. -/
theorem shortcut?_eq_merge (scheme : Scheme) {candidates : List Candidate} {answer : Option Text}
    (h : shortcut? candidates = some answer) :
    answer = nonempty? ((plain scheme).merge candidates).1.classText := by
  unfold shortcut? at h
  split at h
  · cases h
    rfl
  · next only =>
    split at h
    · next htruthy =>
      split at h
      · next classes =>
        split at h
        · cases h
        · next hblank =>
          cases h
          -- a lone word is the only token of its merge
          have hne : classes.isEmpty = false := by simpa [Candidate.truthy] using htruthy
          have hword : Text.IsWord classes := by
            refine ⟨by simpa using hne, ?_⟩
            simpa using hblank
          have hfit : ∀ p ∈ Candidate.piecesAll [.text classes], p.Fits scheme := by
            simp [Candidate.piecesAll, Candidate.pieces, hne, Piece.Fits]
          rw [Candidate.merge_of_fits hfit, Candidate.tokensAll_singleton, Candidate.tokens,
            Text.words_of_isWord hword]
          unfold Fragment.classText nonempty?
          rw [Fragment.tokens_ofTokens_singleton]
          simp [Text.join, hne]
      · cases h
    · next hfalse =>
      cases h
      have hnone : Candidate.piecesAll [only] = [] := by
        simp [Candidate.piecesAll, pieces_of_not_truthy (by simpa using hfalse)]
      rw [merge_of_no_pieces scheme hnone]
      rfl
  · cases h

/-- The text of a list of candidates is that of their fragment. -/
theorem classText_eq_merge (scheme : Scheme) (candidates : List Candidate) :
    ((plain scheme).classText candidates).1 =
      nonempty? ((plain scheme).merge candidates).1.classText := by
  unfold classText
  split
  · next answer h => exact shortcut?_eq_merge scheme h
  · rfl

end Classifier

namespace Fragment

variable {scheme : Scheme} {ts : List Text}

/-- Words are still apart in a class text. -/
theorem words_classText {f : Fragment} (hf : f.Fits scheme) : f.classText.words = f.tokens :=
  Text.words_join hf.words

theorem tokens_ofTokens_eq_nil_iff : (ofTokens scheme ts).tokens = [] ↔ ts = [] := by
  rw [← List.length_eq_zero_iff, ← size_eq_length, size_ofTokens]

/-- Without empty tokens, a fragment that has any token has a text. -/
theorem nonempty?_classText {f : Fragment} (h : [] ∉ f.tokens) :
    Classifier.nonempty? f.classText = if f.size = 0 then none else some f.classText := by
  have hiff : f.classText = [] ↔ f.size = 0 := by
    rw [size_eq_length, List.length_eq_zero_iff]
    exact Text.join_eq_nil_iff h
  unfold Classifier.nonempty?
  simp only [List.isEmpty_iff, hiff]

theorem nonempty?_classText_ofTokens (h : ∀ t ∈ ts, Text.IsWord t) :
    Classifier.nonempty? (ofTokens scheme ts).classText =
      (ofTokens? scheme ts).map classText := by
  have hfull : [] ∉ (ofTokens scheme ts).tokens :=
    fun hnil => (h [] (mem_of_mem_tokens_ofTokens hnil)).ne_nil rfl
  rw [nonempty?_classText hfull]
  unfold ofTokens?
  simp only [size_ofTokens]
  split <;> rfl

end Fragment

/-- A call for a text on an argument whose pieces fit. -/
theorem Candidate.mergeClasses_of_fits {scheme : Option Scheme} {argument : Candidate}
    {candidates : List Candidate} (h : argument.arguments? = some candidates)
    (hfit : ∀ p ∈ argument.pieces, p.Fits (scheme.getD .default)) :
    mergeClasses argument scheme none =
      .ok ((Fragment.ofTokens? (scheme.getD .default) argument.argumentTokens).map
        Fragment.classText, none) := by
  have hall := fits_of_arguments h hfit
  rw [mergeClasses_of_arguments h, Classifier.classText_eq_merge, merge_of_fits hall,
    Fragment.nonempty?_classText_ofTokens (isWord_of_fits hall), tokensAll_arguments h]

/-! ## Parts -/

namespace Fragment

variable {scheme : Scheme}

/-- The tokens that a merge of `ys` keeps may stand for `ys` in any list. -/
theorem ofTokens_append_tokens (xs zs : List Text) {ys : List Text}
    (h : ∀ t ∈ ys, Text.IsWord t) :
    ofTokens scheme (xs ++ (ofTokens scheme ys).tokens ++ zs) =
      ofTokens scheme (xs ++ ys ++ zs) := by
  have hfits : (ofTokens scheme ys).Fits scheme := fits_ofTokens h
  have happend : ∀ us vs : List Text,
      atomicPairs scheme (us ++ vs) = atomicPairs scheme us ++ atomicPairs scheme vs :=
    fun _ _ => List.filterMap_append
  apply ext_toList
  · rw [classes_ofTokens, classes_ofTokens]
    simp only [List.filter_append]
    rw [hfits.filter_tokens, classes_ofTokens, distinct_append_distinct]
  · rw [groups_ofTokens, groups_ofTokens]
    simp only [happend]
    rw [hfits.atomicPairs_tokens, groups_ofTokens, lastPerKey_append_lastPerKey]

theorem ofTokens?_append_tokens (xs zs : List Text) {ys : List Text}
    (h : ∀ t ∈ ys, Text.IsWord t) :
    ofTokens? scheme (xs ++ (ofTokens scheme ys).tokens ++ zs) =
      ofTokens? scheme (xs ++ ys ++ zs) := by
  unfold ofTokens?
  simp only [List.append_eq_nil_iff, tokens_ofTokens_eq_nil_iff, ofTokens_append_tokens xs zs h]

end Fragment

namespace Candidate

/-- The candidate that a merge into a fragment hands on. -/
def ofGroups : Option Fragment → Candidate
  | none => .datum .absent
  | some f => .fragment f

/-- The candidate that a merge into a text hands on. -/
def ofClassText : Option Text → Candidate
  | none => .datum .absent
  | some t => .text t

variable {scheme : Scheme} {ts : List Text}

theorem tokens_ofGroups : (ofGroups (Fragment.ofTokens? scheme ts)).tokens =
    (Fragment.ofTokens scheme ts).tokens := by
  unfold Fragment.ofTokens?
  split
  · next h => rw [h]; rfl
  · rfl

theorem tokens_ofClassText (h : ∀ t ∈ ts, Text.IsWord t) :
    (ofClassText ((Fragment.ofTokens? scheme ts).map Fragment.classText)).tokens =
      (Fragment.ofTokens scheme ts).tokens := by
  unfold Fragment.ofTokens?
  split
  · next h => rw [h]; rfl
  · exact Fragment.words_classText (Fragment.fits_ofTokens h)

theorem fits_ofGroups (h : ∀ t ∈ ts, Text.IsWord t) :
    ∀ p ∈ (ofGroups (Fragment.ofTokens? scheme ts)).pieces, p.Fits scheme := by
  intro p hp
  unfold Fragment.ofTokens? at hp
  split at hp
  · simp [ofGroups, pieces] at hp
  · simp only [ofGroups, pieces] at hp
    split at hp
    · simp at hp
    · rw [List.mem_singleton.1 hp]
      exact Fragment.fits_ofTokens h

theorem fits_ofClassText (answer : Option Text) :
    ∀ p ∈ (ofClassText answer).pieces, p.Fits scheme := by
  intro p hp
  cases answer with
  | none => simp [ofClassText, pieces] at hp
  | some t =>
    simp only [ofClassText, pieces] at hp
    split at hp
    · simp at hp
    · rw [List.mem_singleton.1 hp]
      trivial

theorem fits_piecesAll_append {xs ys : List Candidate} :
    (∀ p ∈ piecesAll (xs ++ ys), p.Fits scheme) ↔
      (∀ p ∈ piecesAll xs, p.Fits scheme) ∧ ∀ p ∈ piecesAll ys, p.Fits scheme := by
  simp only [mem_piecesAll, List.mem_append]
  constructor
  · intro h
    exact ⟨fun p ⟨c, hc, hp⟩ => h p ⟨c, .inl hc, hp⟩, fun p ⟨c, hc, hp⟩ => h p ⟨c, .inr hc, hp⟩⟩
  · rintro ⟨hx, hy⟩ p ⟨c, hc | hc, hp⟩
    · exact hx p ⟨c, hc, hp⟩
    · exact hy p ⟨c, hc, hp⟩

theorem piecesAll_singleton (c : Candidate) : piecesAll [c] = c.pieces := by
  simp [piecesAll]

end Candidate

/-! ## Calls on lists -/

section Lists

variable {scheme : Option Scheme}

theorem mergeGroups_list {items : List Candidate} (fixed : Bool)
    (h : ∀ p ∈ Candidate.piecesAll items, p.Fits (scheme.getD .default)) :
    mergeGroups (.list items fixed) scheme none =
      .ok (Fragment.ofTokens? (scheme.getD .default) (Candidate.tokensAll items), none) :=
  Candidate.mergeGroups_of_fits rfl h

theorem mergeClasses_list {items : List Candidate} (fixed : Bool)
    (h : ∀ p ∈ Candidate.piecesAll items, p.Fits (scheme.getD .default)) :
    mergeClasses (.list items fixed) scheme none =
      .ok ((Fragment.ofTokens? (scheme.getD .default) (Candidate.tokensAll items)).map
        Fragment.classText, none) :=
  Candidate.mergeClasses_of_fits rfl h

/-- A candidate with the tokens of `ys`, or with those that a merge of `ys`
    keeps, may stand for `ys` in a list. -/
theorem ofTokens?_of_part (scheme : Scheme) (xs zs : List Candidate) {ys : List Candidate}
    {c : Candidate} (hwords : ∀ t ∈ Candidate.tokensAll ys, Text.IsWord t)
    (hc : c.tokens = Candidate.tokensAll ys ∨
      c.tokens = (Fragment.ofTokens scheme (Candidate.tokensAll ys)).tokens) :
    Fragment.ofTokens? scheme (Candidate.tokensAll (xs ++ [c] ++ zs)) =
      Fragment.ofTokens? scheme (Candidate.tokensAll (xs ++ ys ++ zs)) := by
  simp only [Candidate.tokensAll_append, Candidate.tokensAll_singleton]
  rcases hc with hc | hc
  · rw [hc]
  · rw [hc, Fragment.ofTokens?_append_tokens _ _ hwords]

/-- Between `xs` and `zs`, the part `ys` may be merged into groups, merged
    into a text or put into a list of its own: the groups and the text of
    the whole stay the same. A text that is merged once more stays as it is. -/
def MergesInParts (scheme : Option Scheme) (fixed : Bool) (xs ys zs : List Candidate) : Prop :=
  ∃ groups text partGroups partText,
    mergeGroups (.list ys fixed) scheme none = .ok (partGroups, none) ∧
    mergeClasses (.list ys fixed) scheme none = .ok (partText, none) ∧
    mergeGroups (.list (xs ++ ys ++ zs) fixed) scheme none = .ok (groups, none) ∧
    mergeGroups (.list (xs ++ [.ofGroups partGroups] ++ zs) fixed) scheme none =
      .ok (groups, none) ∧
    mergeGroups (.list (xs ++ [.list ys fixed] ++ zs) fixed) scheme none = .ok (groups, none) ∧
    mergeClasses (.list (xs ++ ys ++ zs) fixed) scheme none = .ok (text, none) ∧
    mergeClasses (.list (xs ++ [.ofClassText partText] ++ zs) fixed) scheme none =
      .ok (text, none) ∧
    mergeClasses (.list [.ofClassText partText] fixed) scheme none = .ok (partText, none)

/-- Any part of any list of built candidates may be merged before the whole. -/
theorem merge_of_merged_part {xs ys zs : List Candidate} (fixed : Bool)
    (hbuilt : ∀ c ∈ xs ++ ys ++ zs, c.BuiltUnder (scheme.getD .default)) :
    MergesInParts scheme fixed xs ys zs := by
  have hfit : ∀ p ∈ Candidate.piecesAll (xs ++ ys ++ zs), p.Fits (scheme.getD .default) := by
    intro p hp
    obtain ⟨c, hc, hpc⟩ := Candidate.mem_piecesAll.1 hp
    exact (hbuilt c hc).fits p hpc
  obtain ⟨hxy, hz⟩ := Candidate.fits_piecesAll_append.1 hfit
  obtain ⟨hx, hy⟩ := Candidate.fits_piecesAll_append.1 hxy
  have hwords := Candidate.isWord_of_fits hy
  -- what stands in the place of the part has to fit there
  have hplace : ∀ c : Candidate, (∀ p ∈ c.pieces, p.Fits (scheme.getD .default)) →
      ∀ p ∈ Candidate.piecesAll (xs ++ [c] ++ zs), p.Fits (scheme.getD .default) := by
    intro c hc
    rw [Candidate.fits_piecesAll_append, Candidate.fits_piecesAll_append,
      Candidate.piecesAll_singleton]
    exact ⟨⟨hx, hc⟩, hz⟩
  refine ⟨_, _, _, _, mergeGroups_list fixed hy, mergeClasses_list fixed hy,
    mergeGroups_list fixed hfit, ?_, ?_, mergeClasses_list fixed hfit, ?_, ?_⟩
  · rw [mergeGroups_list fixed (hplace _ (Candidate.fits_ofGroups hwords)),
      ofTokens?_of_part _ xs zs hwords (.inr Candidate.tokens_ofGroups)]
  · rw [mergeGroups_list fixed (hplace (.list ys fixed) hy),
      ofTokens?_of_part _ xs zs hwords (.inl rfl)]
  · rw [mergeClasses_list fixed (hplace _ (Candidate.fits_ofClassText _)),
      ofTokens?_of_part _ xs zs hwords (.inr (Candidate.tokens_ofClassText hwords))]
  · rw [mergeClasses_list fixed (by
        rw [Candidate.piecesAll_singleton]
        exact Candidate.fits_ofClassText _)]
    -- a list that holds nothing but the part is the case without neighbours
    have hpart := ofTokens?_of_part (scheme.getD .default) [] [] hwords
      (.inr (Candidate.tokens_ofClassText hwords))
    simp only [List.nil_append, List.append_nil] at hpart
    rw [hpart]

/-- A group that is written in front of the part, inside it and, in a nested
    list, behind it. -/
theorem merge_of_merged_part_overruled :
    (∀ c ∈ [Candidate.text "_aaaabbbb foo".toList] ++
        [.text "bar _aaaacccc".toList, .datum .absent] ++
        [.list [.text "_bbbbcccc _aaaadddd foo".toList]], c.BuiltUnder .default) ∧
      MergesInParts none false [.text "_aaaabbbb foo".toList]
        [.text "bar _aaaacccc".toList, .datum .absent]
        [.list [.text "_bbbbcccc _aaaadddd foo".toList]] := by
  have hbuilt : ∀ c ∈ [Candidate.text "_aaaabbbb foo".toList] ++
      [.text "bar _aaaacccc".toList, .datum .absent] ++
      [.list [.text "_bbbbcccc _aaaadddd foo".toList]], c.BuiltUnder .default := by
    intro c hc
    simp only [List.cons_append, List.nil_append, List.mem_cons, List.not_mem_nil,
      or_false] at hc
    rcases hc with rfl | rfl | rfl | rfl
    · exact .text _
    · exact .text _
    · exact .datum _
    · apply Candidate.BuiltUnder.list
      intro c hc
      rw [List.mem_singleton.1 hc]
      exact .text _
  exact ⟨hbuilt, merge_of_merged_part false hbuilt⟩

end Lists

end StyleSlots
