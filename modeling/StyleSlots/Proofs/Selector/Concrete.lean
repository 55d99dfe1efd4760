import StyleSlots.Proofs.ClassName.Generated
import StyleSlots.Proofs.Grammar.Lexemes
import StyleSlots.Proofs.Selector.Lists

/-! # Concrete selectors are single selectors

    The selector of an atomic rule is written in front of a brace without
    anyone looking at it again. It has to be read as what it is: one
    selector, whatever its quotes and brackets are like.

    - **Proper selectors**: a reader takes such a text, behind nothing and in
      front of a brace, for one selector and leaves it as it is.
    - **Normal form**: what is put in front of a selector opens nothing.
    - **Class**: what is put in the place of self-references opens and closes
      nothing, so it does not matter where they stand. -/

namespace StyleSlots

namespace Selector

/-! ## Texts without marks -/

variable {n : Nesting} {name s t : Text}

theorem whole_of_no_mark (h : n.Reachable) (ht : ∀ c ∈ t, c ∉ marks) : Whole n t := by
  induction t with
  | nil => trivial
  | cons c t ih =>
    have hc := ht c (List.mem_cons_self ..)
    refine ⟨?_, ?_⟩
    · rintro ⟨rfl, -⟩
      exact hc (by decide)
    · rw [Nesting.after_of_not_mark h hc]
      exact ih fun d hd => ht d (List.mem_cons_of_mem _ hd)

theorem whole_append_of_no_mark (h : n.Reachable) (hs : ∀ c ∈ s, c ∉ marks) :
    Whole n (s ++ t) ↔ Whole n t := by
  rw [whole_append, Nesting.behind_of_no_mark h hs]
  exact and_iff_right (whole_of_no_mark h hs)

/-! ## Proper selectors -/

/-- Whether a text can be a selector on its own, or the element itself where
    it is empty. -/
structure IsProper (s : Text) : Prop where
  trimmed      : Text.IsTrimmed s
  whole        : Whole .outer s
  no_delimiter : ∀ c ∈ s, isDelimiter c = false
  start        : ∀ c ∈ s.head?, c ≠ '@' ∧ c ≠ '/'

namespace IsProper

theorem nil : IsProper [] := ⟨Text.isTrimmed_nil, trivial, by simp, by simp⟩

/-- A proper selector is the run of a rule. -/
theorem isRun (h : IsProper s) (hne : s ≠ []) : IsRun s := by
  obtain ⟨c, t, rfl⟩ := List.exists_cons_of_ne_nil hne
  obtain ⟨hat, hslash⟩ := h.start c rfl
  refine ⟨⟨c, rfl, startsRun_iff.2 ⟨hat, hslash, ?_, h.trimmed.start c rfl⟩⟩, h.no_delimiter⟩
  exact h.no_delimiter c (List.mem_cons_self ..)

/-- It is split into itself. -/
theorem isList (h : IsProper s) (hne : s ≠ []) : IsList [s] where
  separated := ⟨h.whole, fun hmore => absurd rfl hmore, trivial⟩
  trimmed := List.forall_mem_singleton.2 h.trimmed
  ne_nil := List.forall_mem_singleton.2 hne

/-! ## Normal forms -/

/-- A self-reference, with something without a meaning behind it, is put in
    front. -/
theorem reference_append (h : IsProper s) (front : Text)
    (hfront : ∀ c ∈ front, c ∉ marks ∧ isDelimiter c = false)
    (hend : s = [] → front = []) : IsProper (selfReference :: front ++ s) where
  trimmed := by
    refine ⟨?_, ?_⟩
    · intro c hc
      obtain rfl : selfReference = c := Option.some.inj hc
      rfl
    · intro c hc
      by_cases hs : s = []
      · rw [hend hs, hs] at hc
        obtain rfl : selfReference = c := Option.some.inj hc
        rfl
      · rw [List.getLast?_append_of_ne_nil _ hs] at hc
        exact h.trimmed.finish c hc
  whole := by
    refine (whole_append_of_no_mark Nesting.reachable_outer ?_).2 h.whole
    intro c hc
    rcases List.mem_cons.1 hc with rfl | hc
    · decide
    · exact (hfront c hc).1
  no_delimiter := by
    intro c hc
    rcases List.mem_append.1 hc with hc | hc
    · rcases List.mem_cons.1 hc with rfl | hc
      · rfl
      · exact (hfront c hc).2
    · exact h.no_delimiter c hc
  start := by
    intro c hc
    obtain rfl : selfReference = c := Option.some.inj hc
    decide

theorem normalize (h : IsProper s) : IsProper (normalize s) := by
  unfold Selector.normalize
  rw [h.trimmed.trim_eq]
  by_cases hnil : s = []
  · subst hnil
    exact nil.reference_append [] (by simp) fun _ => rfl
  · have hempty : ¬ s.isEmpty = true := by simpa using hnil
    rw [if_neg hempty]
    split
    · exact h
    · split
      · exact h.reference_append [] (by simp) fun _ => rfl
      · refine h.reference_append [' '] ?_ fun hs => absurd hs hnil
        exact List.forall_mem_singleton.2 ⟨by decide, rfl⟩

end IsProper

theorem normalize_ne_nil (t : Text) : normalize t ≠ [] := by
  dsimp only [normalize]
  split
  · simp
  · next hne =>
    split
    · simpa using hne
    · split <;> simp

/-! ## Classes -/

/-- Whether a text can be the name of a class in any place of a selector. -/
structure IsClass (name : Text) : Prop where
  no_mark      : ∀ c ∈ name, c ∉ marks
  no_delimiter : ∀ c ∈ name, isDelimiter c = false
  finish       : ∀ c ∈ name.getLast?, isBlank c = false

theorem scopeTo_cons (name : Text) (c : Char) (t : Text) : scopeTo name (c :: t) =
    (if c = selfReference then '.' :: name else [c]) ++ scopeTo name t := rfl

theorem scopeTo_ne_nil (name : Text) (h : t ≠ []) : scopeTo name t ≠ [] := by
  obtain ⟨c, t, rfl⟩ := List.exists_cons_of_ne_nil h
  rw [scopeTo_cons]
  split <;> simp

/-- The class opens and closes nothing where it stands. -/
theorem whole_scopeTo (hname : ∀ c ∈ name, c ∉ marks) (h : n.Reachable) :
    Whole n (scopeTo name t) ↔ Whole n t := by
  -- along the selector, from wherever its characters have led so far
  induction t generalizing n with
  | nil => exact Iff.rfl
  | cons c t ih =>
    rw [scopeTo_cons]
    by_cases hc : c = selfReference
    · have hclass : ∀ d ∈ '.' :: name, d ∉ marks :=
        List.forall_mem_cons.2 ⟨by decide, hname⟩
      have hself : ∀ d ∈ [selfReference], d ∉ marks :=
        List.forall_mem_singleton.2 (by decide)
      rw [if_pos hc, hc, whole_append_of_no_mark h hclass, ih h]
      exact (whole_append_of_no_mark (s := [selfReference]) h hself).symm
    · rw [if_neg hc, List.singleton_append, Whole, Whole, ih (h.after c)]

theorem head?_scopeTo (name t : Text) : (scopeTo name t).head? =
    t.head?.map fun c => if c = selfReference then '.' else c := by
  cases t with
  | nil => rfl
  | cons c t =>
    rw [scopeTo_cons]
    by_cases hc : c = selfReference <;> simp [hc]

/-- The last character is that of the selector, or the last one of a class. -/
theorem mem_getLast?_scopeTo {c : Char} (hc : c ∈ (scopeTo name t).getLast?) :
    c ∈ t.getLast? ∨ c = '.' ∨ c ∈ name.getLast? := by
  rcases List.eq_nil_or_concat t with rfl | ⟨front, last, rfl⟩
  · cases hc
  · rw [List.concat_eq_append] at hc ⊢
    rw [scopeTo, List.flatMap_append, List.flatMap_singleton] at hc
    split at hc
    · rw [List.getLast?_append_of_ne_nil _ (List.cons_ne_nil _ _)] at hc
      cases name with
      | nil => exact .inr (.inl (Option.some.inj hc).symm)
      | cons d name => exact .inr (.inr hc)
    · rw [List.getLast?_append_of_ne_nil _ (List.cons_ne_nil _ _)] at hc ⊢
      exact .inl hc

/-- A selector stays a proper one when a class is put in. -/
theorem IsProper.scopeTo (h : IsProper s) (hname : IsClass name) :
    IsProper (scopeTo name s) where
  trimmed := by
    refine ⟨?_, ?_⟩
    · intro c hc
      rw [head?_scopeTo] at hc
      obtain ⟨d, hd, rfl⟩ := Option.map_eq_some_iff.1 hc
      split
      · rfl
      · exact h.trimmed.start d hd
    · intro c hc
      rcases mem_getLast?_scopeTo hc with hc | rfl | hc
      · exact h.trimmed.finish c hc
      · rfl
      · exact hname.finish c hc
  whole := (whole_scopeTo hname.no_mark Nesting.reachable_outer).2 h.whole
  no_delimiter := by
    intro c hc
    obtain ⟨d, hd, hc⟩ := List.mem_flatMap.1 hc
    split at hc
    · rcases List.mem_cons.1 hc with rfl | hc
      · rfl
      · exact hname.no_delimiter c hc
    · obtain rfl := List.mem_singleton.1 hc
      exact h.no_delimiter c hd
  start := by
    intro c hc
    rw [head?_scopeTo] at hc
    obtain ⟨d, hd, rfl⟩ := Option.map_eq_some_iff.1 hc
    split
    · decide
    · exact h.start d hd

end Selector

/-! ## Generated names -/

namespace ClassName

/-- A generated name is the name of a class: the sentinel, also one with a
    line break, and the digits behind it are neither marks nor delimiters. -/
theorem isClass_encode (scheme : Scheme) (context : List Text) (selector : Text)
    (d : Declaration) : Selector.IsClass (encode scheme context selector d) := by
  have hnot := not_mem_encode (Selector.marks ++ ['\x7b', '\x7d', ';']) (by decide) scheme context
    selector d
  simp only [List.mem_append, not_or] at hnot
  refine ⟨fun c hc => (hnot c hc).1, ?_, ?_⟩
  · intro c hc
    rw [← Bool.not_eq_true, isDelimiter_iff]
    simpa using (hnot c hc).2
  · -- the last character is a digit
    obtain ⟨tail, htail, hlength, hdigits⟩ := exists_tail scheme context selector d
    intro c hc
    rw [htail, List.getLast?_append_of_ne_nil _ (tail_ne_nil hlength)] at hc
    exact isBlank_of_mem_digits c (hdigits c (List.mem_of_getLast? hc))

end ClassName

end StyleSlots
