import StyleSlots.Proofs.Text.Spans
import StyleSlots.Proofs.Text.Words

/-! # Trimmed and collapsed texts

    - **Trimming**: a text is its trimmed form between blanks, and no text
      but this one has no blank at either end.
    - **Collapsing**: the words of a text with single spaces between them
      are the trimmed text with every run of blanks replaced by a space. -/

namespace StyleSlots

namespace Text

/-! ## Trimming -/

/-- A text that neither starts nor ends with a blank. -/
structure IsTrimmed (t : Text) : Prop where
  start : ∀ c ∈ t.head?, isBlank c = false
  finish : ∀ c ∈ t.getLast?, isBlank c = false

theorem isTrimmed_nil : IsTrimmed [] := ⟨by simp, by simp⟩

theorem trimEnd_append_of_blank {t blanks : Text} (ht : ∀ c ∈ t.getLast?, isBlank c = false)
    (hblanks : ∀ c ∈ blanks, isBlank c = true) : trimEnd (t ++ blanks) = t := by
  unfold trimEnd
  rw [List.reverse_append, dropWhile_append_of_stop, List.reverse_reverse]
  · intro c hc
    exact hblanks c (List.mem_reverse.1 hc)
  · intro c hc
    rw [List.head?_reverse] at hc
    exact ht c hc

/-- What stands between blanks is left by trimming. -/
theorem trim_of_isTrimmed {before t behind : Text} (ht : IsTrimmed t)
    (hbefore : ∀ c ∈ before, isBlank c = true) (hbehind : ∀ c ∈ behind, isBlank c = true) :
    trim (before ++ t ++ behind) = t := by
  have hstart : trimStart (before ++ t ++ behind) = t ++ behind ∨ t = [] := by
    by_cases hnil : t = []
    · exact .inr hnil
    · refine .inl ?_
      unfold trimStart
      rw [List.append_assoc]
      refine dropWhile_append_of_stop hbefore ?_
      intro c hc
      rw [List.head?_append_of_ne_nil _ hnil] at hc
      exact ht.start c hc
  rcases hstart with hstart | rfl
  · rw [trim, hstart, trimEnd_append_of_blank ht.finish hbehind]
  · -- only blanks: nothing is left to trim at the end
    have hall : ∀ c ∈ before ++ [] ++ behind, isBlank c = true := by
      intro c hc
      have hc' : c ∈ before ∨ c ∈ behind := by simpa using hc
      exact hc'.elim (hbefore c) (hbehind c)
    have hdrop : (before ++ [] ++ behind ++ []).dropWhile isBlank = [] :=
      dropWhile_append_of_stop hall (by simp)
    rw [List.append_nil] at hdrop
    rw [trim, trimStart, hdrop]
    rfl

theorem exists_trimStart (t : Text) :
    ∃ before, t = before ++ trimStart t ∧ ∀ c ∈ before, isBlank c = true := by
  refine ⟨t.takeWhile isBlank, ?_, fun c hc => of_mem_takeWhile hc⟩
  exact List.takeWhile_append_dropWhile.symm

theorem exists_trimEnd (t : Text) :
    ∃ behind, t = trimEnd t ++ behind ∧ ∀ c ∈ behind, isBlank c = true := by
  refine ⟨(t.reverse.takeWhile isBlank).reverse, ?_, ?_⟩
  · rw [trimEnd, ← List.reverse_append, List.takeWhile_append_dropWhile, List.reverse_reverse]
  · intro c hc
    exact of_mem_takeWhile (List.mem_reverse.1 hc)

/-- A text is its trimmed form between blanks. -/
theorem exists_trim (t : Text) : ∃ before behind, t = before ++ trim t ++ behind ∧
    (∀ c ∈ before, isBlank c = true) ∧ ∀ c ∈ behind, isBlank c = true := by
  obtain ⟨before, hstart, hbefore⟩ := exists_trimStart t
  obtain ⟨behind, hend, hbehind⟩ := exists_trimEnd (trimStart t)
  refine ⟨before, behind, ?_, hbefore, hbehind⟩
  rw [trim, List.append_assoc, ← hend]
  exact hstart

theorem getLast?_trimEnd (t : Text) : ∀ c ∈ (trimEnd t).getLast?, isBlank c = false := by
  intro c hc
  rw [trimEnd, List.getLast?_reverse] at hc
  exact head?_dropWhile isBlank _ c hc

theorem isTrimmed_trim (t : Text) : IsTrimmed (trim t) where
  start := by
    intro c hc
    obtain ⟨behind, hend, _⟩ := exists_trimEnd (trimStart t)
    -- the first character of the trimmed text is the first one that is no blank
    have hne : trimEnd (trimStart t) ≠ [] := by
      rintro hnil
      rw [trim, hnil] at hc
      simp at hc
    have hhead : (trimStart t).head? = some c := by
      rw [hend, List.head?_append_of_ne_nil _ hne]
      exact hc
    exact head?_dropWhile isBlank t c hhead
  finish := getLast?_trimEnd _

theorem IsTrimmed.trim_eq {t : Text} (h : IsTrimmed t) : trim t = t := by
  have heq : trim ([] ++ t ++ []) = t := trim_of_isTrimmed h (by simp) (by simp)
  simpa using heq

/-- Nothing is left of a text only if it is blank. -/
theorem trim_eq_nil_iff {t : Text} : trim t = [] ↔ ∀ c ∈ t, isBlank c = true := by
  constructor
  · intro h c hc
    obtain ⟨before, behind, heq, hbefore, hbehind⟩ := exists_trim t
    rw [h, List.append_nil] at heq
    rw [heq, List.mem_append] at hc
    exact hc.elim (hbefore c) (hbehind c)
  · intro h
    have heq : trim (t ++ [] ++ []) = [] := trim_of_isTrimmed isTrimmed_nil h (by simp)
    simpa using heq

/-- A text that does not start with a blank is trimmed at its end only. -/
theorem trim_cons_prefix {c : Char} (hc : isBlank c = false) (t : Text) :
    trim (c :: t) <+: c :: t := by
  obtain ⟨before, behind, heq, hbefore, _⟩ := exists_trim (c :: t)
  cases before with
  | nil => exact ⟨behind, heq.symm⟩
  | cons d before =>
    obtain ⟨rfl, -⟩ := List.cons.inj heq
    rw [hbefore c (List.mem_cons_self ..)] at hc
    cases hc

/-- A text that does not start with a blank keeps its first character. -/
theorem head?_trim_cons {c : Char} (hc : isBlank c = false) (t : Text) :
    (trim (c :: t)).head? = some c := by
  obtain ⟨behind, heq⟩ := trim_cons_prefix hc t
  have hne : trim (c :: t) ≠ [] := by
    intro hnil
    rw [trim_eq_nil_iff.1 hnil c (List.mem_cons_self ..)] at hc
    cases hc
  rw [← List.head?_append_of_ne_nil _ hne, heq]
  rfl

theorem mem_of_mem_trim {t : Text} {c : Char} (h : c ∈ trim t) : c ∈ t := by
  obtain ⟨before, behind, heq, _, _⟩ := exists_trim t
  rw [heq]
  simp [h]

/-! ## Words of a trimmed text -/

theorem words_cons_of_blank {c : Char} (hc : isBlank c = true) (t : Text) :
    words (c :: t) = words t := by
  have h := words_append_cons hc [] t
  simpa using h

theorem words_append_of_blank {before : Text} (h : ∀ c ∈ before, isBlank c = true) (t : Text) :
    words (before ++ t) = words t := by
  induction before with
  | nil => rfl
  | cons c before ih =>
    rw [List.cons_append, words_cons_of_blank (h c (List.mem_cons_self ..))]
    exact ih fun a ha => h a (List.mem_cons_of_mem _ ha)

theorem words_of_blank {t : Text} (h : ∀ c ∈ t, isBlank c = true) : words t = [] := by
  have heq := words_append_of_blank h []
  simpa using heq

theorem words_append_blank {behind : Text} (h : ∀ c ∈ behind, isBlank c = true) (t : Text) :
    words (t ++ behind) = words t := by
  cases behind with
  | nil => rw [List.append_nil]
  | cons c behind =>
    rw [words_append_cons (h c (List.mem_cons_self ..)),
      words_of_blank fun a ha => h a (List.mem_cons_of_mem _ ha), List.append_nil]

theorem words_trim (t : Text) : words (trim t) = words t := by
  obtain ⟨before, behind, heq, hbefore, hbehind⟩ := exists_trim t
  calc words (trim t) = words (trim t ++ behind) := (words_append_blank hbehind _).symm
    _ = words (before ++ (trim t ++ behind)) := (words_append_of_blank hbefore _).symm
    _ = words t := by rw [← List.append_assoc, ← heq]

/-! ## Collapsing -/

/-- The text with every run of blanks replaced by one space. -/
def squeeze : Text → Text
  | [] => []
  | c :: t =>
    if isBlank c then
      -- the last blank of a run leaves the space
      if t.head?.any isBlank then squeeze t else ' ' :: squeeze t
    else c :: squeeze t

/-- A character in front of a word makes that word longer. -/
theorem exists_words_cons_cons {c d : Char} (hc : isBlank c = false) (hd : isBlank d = false)
    (t : Text) : ∃ w ws, words (d :: t) = w :: ws ∧ words (c :: d :: t) = (c :: w) :: ws := by
  obtain ⟨field, more, hf⟩ := List.exists_cons_of_ne_nil (fields_ne_nil isBlank t)
  have hdt := fields_cons_of_not hd hf
  have hcdt := fields_cons_of_not hc hdt
  refine ⟨d :: field, more.filter (! ·.isEmpty), ?_, ?_⟩
  · simp [words, hdt]
  · simp [words, hcdt]

/-- A character in front of a blank, or of nothing, is a word. -/
theorem words_cons_of_head_blank {c : Char} (hc : isBlank c = false) {t : Text}
    (ht : ∀ d ∈ t.head?, isBlank d = true) : words (c :: t) = [c] :: words t := by
  have hword : IsWord [c] := ⟨by simp, by simpa using hc⟩
  cases t with
  | nil => rw [words_of_isWord hword, words_nil]
  | cons d t =>
    have hd := ht d rfl
    rw [words_cons_of_blank hd]
    have h := words_append_cons hd [c] t
    rw [words_of_isWord hword] at h
    exact h

theorem words_ne_nil {t : Text} (hne : t ≠ []) (h : ∀ c ∈ t.getLast?, isBlank c = false) :
    words t ≠ [] := by
  intro hnil
  induction t with
  | nil => exact hne rfl
  | cons c t ih =>
    cases t with
    | nil =>
      have hc : isBlank c = false := h c rfl
      rw [words_cons_of_head_blank hc (by simp)] at hnil
      cases hnil
    | cons d t =>
      by_cases hc : isBlank c = true
      · rw [words_cons_of_blank hc] at hnil
        exact ih (by simp) (by simpa using h) hnil
      · have hc' : isBlank c = false := by simpa using hc
        by_cases hd : isBlank d = true
        · rw [words_cons_of_head_blank hc' (by simpa using hd)] at hnil
          cases hnil
        · obtain ⟨w, ws, _, hwords⟩ := exists_words_cons_cons hc' (by simpa using hd) t
          rw [hwords] at hnil
          cases hnil

theorem join_cons_cons (separator : Text) (c : Char) (w : Text) (ws : List Text) :
    join separator ((c :: w) :: ws) = c :: join separator (w :: ws) := by
  cases ws <;> rfl

theorem join_space_cons {ws : List Text} (h : ws ≠ []) (w : Text) :
    join [' '] (w :: ws) = w ++ ' ' :: join [' '] ws := by
  obtain ⟨v, vs, rfl⟩ := List.exists_cons_of_ne_nil h
  simp [join]

/-- A text that does not end with a blank is squeezed to its words with
    spaces between them, and one in front if it starts with a blank. -/
theorem squeeze_eq {t : Text} (h : ∀ c ∈ t.getLast?, isBlank c = false) :
    squeeze t = (if t.head?.any isBlank then [' '] else []) ++ join [' '] (words t) := by
  induction t with
  | nil => rfl
  | cons c t ih =>
    cases t with
    | nil =>
      have hc : isBlank c = false := h c rfl
      rw [words_cons_of_head_blank hc (by simp)]
      simp [squeeze, hc, join]
    | cons d t =>
      have hlast : ∀ a ∈ (d :: t).getLast?, isBlank a = false := by simpa using h
      have htail := ih hlast
      by_cases hc : isBlank c = true
      · -- the space in front is that of `c` or of the blank behind it
        rw [words_cons_of_blank hc]
        by_cases hd : isBlank d = true
        · rw [squeeze, if_pos hc, if_pos (by simpa using hd), htail]
          simp [hc, hd]
        · rw [squeeze, if_pos hc, if_neg (by simpa using hd), htail]
          simp [hc, hd]
      · have hc' : isBlank c = false := by simpa using hc
        rw [squeeze, if_neg hc, htail]
        by_cases hd : isBlank d = true
        · -- `c` ends a word, and there is another one
          rw [words_cons_of_head_blank hc' (by simpa using hd),
            join_space_cons (words_ne_nil (by simp) hlast)]
          simp [hc', hd]
        · obtain ⟨w, ws, hwords, hlonger⟩ := exists_words_cons_cons hc' (by simpa using hd) t
          rw [hlonger, hwords, join_cons_cons]
          simp [hc', hd]

/-- The words of a text with single spaces between them are the trimmed text
    with its runs of blanks squeezed. -/
theorem collapse_eq_squeeze_trim (t : Text) : collapse t = squeeze (trim t) := by
  have htrimmed := isTrimmed_trim t
  have hstart : (trim t).head?.any isBlank = false := by
    cases hhead : (trim t).head? with
    | none => rfl
    | some c => exact htrimmed.start c hhead
  rw [squeeze_eq htrimmed.finish, hstart, words_trim, collapse]
  rfl

end Text

end StyleSlots
