import Mathlib.Data.List.Infix
import StyleSlots.Proofs.Selector.Lists
import StyleSlots.Proofs.Text.Quotes

/-! # Self-references and quoted strings

    Splitting a list looks at quotes; bringing a selector into normal form
    and putting a class in the place of self-references do not. A
    self-reference inside of a quoted string is therefore taken for one.

    - **Cuts**: quotes open and close as they do for the splitter, and
      neither the normal form nor the class moves them.
    - **Strings**: in a quoted string every self-reference is replaced, so
      a string stays as it is only if there is none in it.
    - **Scope**: the class stands outside of quotes if a self-reference
      does, or if there is none at all and the normal form adds one.
    - **Main statements**: `occursUnquoted_scopeTo_normalize_iff`, when a
      selector is scoped to its class; `infix_scopeTo_normalize_iff`, which
      of its quoted strings are kept. -/

namespace StyleSlots

namespace Selector

open Text

/-! ## Quotes of the splitter -/

theorem quote_after (n : Nesting) (c : Char) : (n.after c).quote =
    match n.quote with
    | some q => if c = q then none else some q
    | none => if isQuote c then some c else none := by
  obtain ⟨quote, depth⟩ := n
  cases quote with
  | some q =>
    simp only [Nesting.after]
    split <;> rfl
  | none =>
    by_cases hc : isQuote c = true
    · have hmark : c = '\'' ∨ c = '"' := by simpa [isQuote] using hc
      simp [Nesting.after, hmark, hc]
    · have hmark : ¬ (c = '\'' ∨ c = '"') := by simpa [isQuote] using hc
      simp only [Nesting.after, hmark, hc, if_false]
      split
      · rfl
      · split <;> rfl

/-- Where a text ends in a quoted segment, there the splitter stands in a
    quote. -/
theorem getLast?_segments (n : Nesting) (t : Text) :
    (segments n.quote t).getLast?.map Segment.quoted = some (n.behind t).quote.isSome := by
  induction t generalizing n with
  | nil => rfl
  | cons c t ih =>
    have htail := ih (n.after c)
    obtain ⟨first, more, hsegments, -⟩ := exists_segments (n.after c).quote t
    rw [hsegments] at htail
    have hprepend : ((Segment.prepend [c] (first :: more)).getLast?).map Segment.quoted =
        ((first :: more).getLast?).map Segment.quoted := by
      cases more with
      | nil => rfl
      | cons => simp [Segment.prepend]
    have hafter := quote_after n c
    show _ = some ((n.after c).behind t).quote.isSome
    rw [← htail]
    rcases segments_cases n.quote c with ⟨hnone, hc⟩ | hsome | ⟨hnone, hsome⟩
    · rw [hnone] at hafter ⊢
      simp only [hc, if_true] at hafter
      rw [segments_none_of_isQuote hc, ← hafter, hsegments, ← hprepend, Segment.prepend,
        List.getLast?_cons_cons]
    · rw [hsome] at hafter ⊢
      simp only [if_true] at hafter
      rw [segments_some_self, ← hafter, hsegments, List.getLast?_cons_cons]
    · have hsame : (n.after c).quote = n.quote := by
        rw [hafter]
        cases hquote : n.quote with
        | none => simp [hnone hquote]
        | some m => simp [hsome m hquote]
      rw [segments_cons hnone hsome, ← hsame, hsegments, hprepend]

/-! ## Putting a class in -/

/-- Whether a text has neither quotation marks nor self-references. -/
def IsPlain (name : Text) : Prop := ∀ c ∈ name, isQuote c = false ∧ c ≠ selfReference

variable {name s t : Text}

theorem isQuote_selfReference : isQuote selfReference = false := by decide

theorem keepsQuotes_scopeTo (hname : IsPlain name) :
    KeepsQuotes fun c => if c = selfReference then '.' :: name else [c] where
  quote := by
    intro c hc
    rw [if_neg]
    rintro rfl
    rw [isQuote_selfReference] at hc
    cases hc
  other := by
    intro c hc d hd
    split at hd
    · rcases List.mem_cons.1 hd with rfl | hd
      · rfl
      · exact (hname d hd).1
    · obtain rfl := List.mem_singleton.1 hd
      exact hc

theorem scopeTo_append (name s t : Text) :
    scopeTo name (s ++ t) = scopeTo name s ++ scopeTo name t := List.flatMap_append

theorem scopeTo_of_not_mem (h : selfReference ∉ t) : scopeTo name t = t := by
  induction t with
  | nil => rfl
  | cons c t ih =>
    have hc : c ≠ selfReference := by
      rintro rfl
      exact h (List.mem_cons_self ..)
    rw [scopeTo, List.flatMap_cons, if_neg hc]
    exact congrArg (c :: ·) (ih fun ht => h (List.mem_cons_of_mem _ ht))

/-- No self-reference is left. -/
theorem selfReference_not_mem_scopeTo (hname : IsPlain name) (t : Text) :
    selfReference ∉ scopeTo name t := by
  intro h
  obtain ⟨c, -, hc⟩ := List.mem_flatMap.1 h
  split at hc
  · rcases List.mem_cons.1 hc with hdot | hc
    · exact absurd hdot (by decide)
    · exact (hname _ hc).2 rfl
  · next hne => exact hne (List.mem_singleton.1 hc).symm

/-- The segments of a scoped text are those of the text, scoped one by one. -/
theorem segments_scopeTo (hname : IsPlain name) (t : Text) :
    segments none (scopeTo name t) =
      (segments none t).map fun s => { s with text := scopeTo name s.text } :=
  segments_flatMap (keepsQuotes_scopeTo hname) isOpening_none t

theorem quotedStrings_scopeTo (hname : IsPlain name) (t : Text) :
    quotedStrings (scopeTo name t) = (quotedStrings t).map (scopeTo name) := by
  rw [quotedStrings, segments_scopeTo hname, List.filter_map, List.map_map, quotedStrings,
    List.map_map]
  rfl

/-- The class stands in a scoped text if it has been put there, or if it
    stood there before. -/
theorem infix_scopeTo_iff (hname : IsPlain name) :
    '.' :: name <:+: scopeTo name t ↔ selfReference ∈ t ∨ '.' :: name <:+: t := by
  constructor
  · intro h
    by_cases hmem : selfReference ∈ t
    · exact .inl hmem
    · rw [scopeTo_of_not_mem hmem] at h
      exact .inr h
  · rintro (hmem | ⟨before, behind, rfl⟩)
    · obtain ⟨before, behind, rfl⟩ := List.append_of_mem hmem
      refine ⟨scopeTo name before, scopeTo name behind, ?_⟩
      rw [scopeTo_append, List.append_assoc]
      rfl
    · have hdot : selfReference ∉ '.' :: name := by
        intro h
        rcases List.mem_cons.1 h with h | h
        · exact absurd h (by decide)
        · exact (hname _ h).2 rfl
      refine ⟨scopeTo name before, scopeTo name behind, ?_⟩
      rw [scopeTo_append, scopeTo_append, scopeTo_of_not_mem hdot]

theorem occursUnquoted_scopeTo_iff (hname : IsPlain name) :
    OccursUnquoted ('.' :: name) (scopeTo name t) ↔
      OccursUnquoted [selfReference] t ∨ OccursUnquoted ('.' :: name) t := by
  unfold OccursUnquoted
  rw [segments_scopeTo hname]
  simp only [List.mem_map, exists_exists_and_eq_and, infix_scopeTo_iff hname,
    List.singleton_infix_iff]
  constructor
  · rintro ⟨s, hs, hquoted, hmem | hclass⟩
    · exact .inl ⟨s, hs, hquoted, hmem⟩
    · exact .inr ⟨s, hs, hquoted, hclass⟩
  · rintro (⟨s, hs, hquoted, hmem⟩ | ⟨s, hs, hquoted, hclass⟩)
    · exact ⟨s, hs, hquoted, .inl hmem⟩
    · exact ⟨s, hs, hquoted, .inr hclass⟩

/-! ## Normal forms -/

/-- A trimmed selector has a self-reference and is left as it is, or gets one
    in front. -/
theorem normalize_cases (h : IsTrimmed s) :
    (selfReference ∈ s ∧ normalize s = s) ∨
      (selfReference ∉ s ∧ ∃ front, (∀ c ∈ front, isQuote c = false) ∧
        normalize s = selfReference :: front ++ s) := by
  unfold normalize
  rw [h.trim_eq]
  by_cases hnil : s = []
  · subst hnil
    exact .inr ⟨by simp, [], by simp, rfl⟩
  · have hempty : ¬ s.isEmpty = true := by simpa using hnil
    by_cases hmem : selfReference ∈ s
    · exact .inl ⟨hmem, by simp [hempty, hmem]⟩
    · refine .inr ⟨hmem, ?_⟩
      by_cases hcolon : s.head? = some ':'
      · exact ⟨[], by simp, by simp [hempty, hmem, hcolon]⟩
      · exact ⟨[' '], List.forall_mem_singleton.2 rfl, by simp [hempty, hmem, hcolon]⟩

theorem segments_reference_append {front : Text} (hfront : ∀ c ∈ front, isQuote c = false)
    (s : Text) : segments none (selfReference :: front ++ s) =
      Segment.prepend (selfReference :: front) (segments none s) := by
  refine segments_append isOpening_none ?_ s
  intro c hc
  rcases List.mem_cons.1 hc with rfl | hc
  · rfl
  · exact hfront c hc

theorem quotedStrings_normalize (h : IsTrimmed s) :
    quotedStrings (normalize s) = quotedStrings s := by
  rcases normalize_cases h with ⟨-, hself⟩ | ⟨-, front, hfront, hnormal⟩
  · rw [hself]
  · -- the first segment of a selector lies outside of quotes
    obtain ⟨first, more, hsegments, hquoted⟩ := exists_segments none s
    rw [hnormal, quotedStrings, quotedStrings, segments_reference_append hfront, hsegments,
      Segment.prepend, List.filter_cons_of_neg (by simp [hquoted]),
      List.filter_cons_of_neg (by simp [hquoted])]

/-! ## Scope -/

/-- Outside of quotes the class stands in a scoped normal form if the selector
    has no self-reference, or one outside of quotes, or the class itself. -/
theorem occursUnquoted_scopeTo_normalize_iff (hname : IsPlain name) (h : IsTrimmed s) :
    OccursUnquoted ('.' :: name) (scopeTo name (normalize s)) ↔
      selfReference ∉ s ∨ OccursUnquoted [selfReference] s ∨ OccursUnquoted ('.' :: name) s := by
  rw [occursUnquoted_scopeTo_iff hname]
  rcases normalize_cases h with ⟨hmem, hself⟩ | ⟨hmem, front, hfront, hnormal⟩
  · rw [hself]
    constructor
    · exact .inr
    · rintro (hnot | hor)
      · exact absurd hmem hnot
      · exact hor
  · refine ⟨fun _ => .inl hmem, fun _ => .inl ?_⟩
    obtain ⟨first, more, hsegments, hquoted⟩ := exists_segments none s
    rw [hnormal, OccursUnquoted, segments_reference_append hfront, hsegments, Segment.prepend]
    refine ⟨_, List.mem_cons_self .., hquoted, ?_⟩
    rw [List.singleton_infix_iff]
    exact List.mem_append_left _ (List.mem_cons_self ..)

/-- Without self-references in quoted strings a selector is scoped. -/
theorem occursUnquoted_of_kept (hname : IsPlain name) (h : IsTrimmed s)
    (hkept : ∀ q ∈ quotedStrings s, selfReference ∉ q) :
    OccursUnquoted ('.' :: name) (scopeTo name (normalize s)) := by
  rw [occursUnquoted_scopeTo_normalize_iff hname h]
  by_cases hmem : selfReference ∈ s
  · -- the segment in which it stands is not a quoted one
    obtain ⟨segment, hsegment, hin⟩ := exists_segment_of_mem hmem none
    refine .inr (.inl ⟨segment, hsegment, ?_, (List.singleton_infix_iff _ _).2 hin⟩)
    by_contra hquoted
    rw [Bool.not_eq_false] at hquoted
    exact hkept segment.text (mem_quotedStrings.2 ⟨segment, hsegment, hquoted, rfl⟩) hin
  · exact .inl hmem

/-- A quoted string of a selector still stands in its scoped normal form if
    and only if it has no self-reference. -/
theorem infix_scopeTo_normalize_iff (hname : IsPlain name) (h : IsTrimmed s) {q : Text}
    (hq : q ∈ quotedStrings s) :
    q <:+: scopeTo name (normalize s) ↔ selfReference ∉ q := by
  constructor
  · intro hin hmem
    exact selfReference_not_mem_scopeTo hname _ (hin.subset hmem)
  · intro hmem
    refine infix_of_mem_quotedStrings ?_
    rw [quotedStrings_scopeTo hname, quotedStrings_normalize h]
    exact List.mem_map.2 ⟨q, hq, scopeTo_of_not_mem hmem⟩

end Selector

end StyleSlots
