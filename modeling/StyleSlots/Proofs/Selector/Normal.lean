import StyleSlots.Proofs.ClassName.Generated
import StyleSlots.Proofs.Selector.Scoping

/-! # Normal selectors

    One selector can be authored in several ways: with blanks around it, and
    with or without a self-reference that it implies. All of them have one
    normal form, and nothing but the normal form goes into a rule.

    - **Normal**: trimmed, and with a self-reference. These are the texts that
      the normal form leaves as they are.
    - **Implied references**: where no self-reference is written, the first
      character decides whether the element itself is meant or what is inside
      of it. Different selectors are never spelt out to the same text, since
      a space stands only where no colon follows.
    - **Main statement**: `normalize_canonical`, the normal form is the same
      for two selectors only if they are the same up to the blanks around
      them, and rules tell no more selectors apart than normal forms do. -/

namespace StyleSlots

namespace Selector

open Text

variable {s t : Text}

/-! ## Normal texts -/

/-- Whether a selector says where the element itself stands, and has no blanks
    around it. -/
structure IsNormal (t : Text) : Prop where
  reference : selfReference ∈ t
  trimmed   : IsTrimmed t

theorem mem_trim_selfReference : selfReference ∈ t.trim ↔ selfReference ∈ t := by
  constructor
  · exact mem_of_mem_trim
  · intro h
    obtain ⟨before, behind, ht, hbefore, hbehind⟩ := exists_trim t
    have hblank : isBlank selfReference = false := by decide
    rw [ht, List.mem_append, List.mem_append] at h
    rcases h with (h | h) | h
    · rw [hbefore _ h] at hblank
      cases hblank
    · exact h
    · rw [hbehind _ h] at hblank
      cases hblank

/-- A self-reference is kept, and the blanks around the selector are not. -/
theorem normalize_of_mem (h : selfReference ∈ t) : normalize t = t.trim := by
  have hmem := mem_trim_selfReference.2 h
  have hne : ¬ t.trim.isEmpty = true := by
    intro hempty
    rw [List.isEmpty_iff.1 hempty] at hmem
    cases hmem
  unfold normalize
  rw [if_neg hne, if_pos hmem]

theorem IsNormal.normalize_eq (h : IsNormal t) : normalize t = t := by
  rw [normalize_of_mem h.reference, h.trimmed.trim_eq]

/-! ## Implied references -/

/-- A selector with the self-reference spelt out that it implies: the element
    alone if nothing is written, the element in the state that follows a colon,
    and otherwise what is inside of the element. -/
def withReference (t : Text) : Text :=
  if t = [] then [selfReference]
  else if t.head? = some ':' then selfReference :: t
  else selfReference :: ' ' :: t

theorem normalize_of_not_mem (h : selfReference ∉ t) : normalize t = withReference t.trim := by
  have hmem : selfReference ∉ t.trim := fun htrim => h (mem_of_mem_trim htrim)
  unfold normalize withReference
  simp only [hmem, if_false, List.isEmpty_iff]

theorem isNormal_withReference (h : IsTrimmed t) : IsNormal (withReference t) := by
  have hstart : ∀ front : Text, ∀ c ∈ (selfReference :: front).head?, isBlank c = false := by
    intro front c hc
    obtain rfl : selfReference = c := Option.some.inj hc
    rfl
  unfold withReference
  split
  · exact ⟨List.mem_singleton_self _, hstart [], by simpa using hstart []⟩
  · next hne =>
    split
    · refine ⟨List.mem_cons_self .., hstart t, ?_⟩
      rw [List.getLast?_cons_of_ne_nil hne]
      exact h.finish
    · refine ⟨List.mem_cons_self .., hstart _, ?_⟩
      rw [List.getLast?_cons_cons, List.getLast?_cons_of_ne_nil hne]
      exact h.finish

/-- What stands behind the first character, and behind a space after it. -/
def behindReference : Text → Text
  | _ :: ' ' :: rest => rest
  | _ :: rest => rest
  | [] => []

/-- What has been spelt out is found again behind the self-reference. -/
theorem behindReference_withReference (t : Text) : behindReference (withReference t) = t := by
  unfold withReference
  split
  · next hnil => rw [hnil]; rfl
  · next hne =>
    split
    · next hcolon =>
      -- a colon is no space, so nothing but the self-reference is taken off
      obtain ⟨rest, rfl⟩ : ∃ rest, t = ':' :: rest := List.head?_eq_some_iff.1 hcolon
      rfl
    · rfl

theorem withReference_injective : Function.Injective withReference :=
  Function.LeftInverse.injective behindReference_withReference

theorem isNormal_normalize (t : Text) : IsNormal (normalize t) := by
  by_cases h : selfReference ∈ t
  · rw [normalize_of_mem h]
    exact ⟨mem_trim_selfReference.2 h, isTrimmed_trim t⟩
  · rw [normalize_of_not_mem h]
    exact isNormal_withReference (isTrimmed_trim t)

theorem normalize_eq_iff (hs : selfReference ∉ s) (ht : selfReference ∉ t) :
    normalize s = normalize t ↔ s.trim = t.trim := by
  rw [normalize_of_not_mem hs, normalize_of_not_mem ht]
  exact withReference_injective.eq_iff

end Selector

/-! ## Rules -/

/-- A generated name has neither quotation marks nor self-references. -/
theorem ClassName.isPlain_encode (scheme : Scheme) (context : List Text) (selector : Text)
    (d : Declaration) : Selector.IsPlain (encode scheme context selector d) := by
  intro c hc
  have hnot := not_mem_encode ['\'', '"', Selector.selfReference] (by decide) _ _ _ _ c hc
  simpa [Text.isQuote, and_assoc] using hnot

namespace AtomicRule

variable {s t : Text}

/-- A selector goes into a rule as its normal form only. -/
theorem ofDeclaration_congr (h : Selector.normalize s = Selector.normalize t) (scheme : Scheme)
    (context : List AtRule) (d : Declaration) :
    ofDeclaration scheme context s d = ofDeclaration scheme context t d := by
  unfold ofDeclaration
  rw [h]

theorem selfReference_not_mem_selector (scheme : Scheme) (context : List AtRule) (selector : Text)
    (d : Declaration) :
    Selector.selfReference ∉ (ofDeclaration scheme context selector d).selector :=
  Selector.selfReference_not_mem_scopeTo (ClassName.isPlain_encode _ _ _ _) _

end AtomicRule

/-- The normal form of a selector has a self-reference and no blanks around it,
    and is its own normal form. Selectors without self-references have the same
    one if and only if they are the same up to the blanks around them, and it
    is also that of the selector with the self-reference which it implies.

    Whatever the scheme, the context and the declaration are, selectors with
    the same normal form give the same rule, and no self-reference is left in
    the selector of a rule. -/
theorem Selector.normalize_canonical (s t : Text) :
    (normalize (normalize t) = normalize t ∧ selfReference ∈ normalize t ∧
      Text.IsTrimmed (normalize t)) ∧
    (selfReference ∉ s → selfReference ∉ t →
      (normalize s = normalize t ↔ s.trim = t.trim)) ∧
    (Text.IsTrimmed t → selfReference ∉ t → normalize (withReference t) = normalize t) ∧
    ∀ (scheme : Scheme) (context : List AtRule) (d : Declaration),
      (normalize s = normalize t →
        AtomicRule.ofDeclaration scheme context s d =
          AtomicRule.ofDeclaration scheme context t d) ∧
      selfReference ∉ (AtomicRule.ofDeclaration scheme context t d).selector := by
  have hnormal := isNormal_normalize t
  refine ⟨⟨hnormal.normalize_eq, hnormal.reference, hnormal.trimmed⟩, normalize_eq_iff, ?_, ?_⟩
  · intro htrimmed hmem
    rw [(isNormal_withReference htrimmed).normalize_eq, normalize_of_not_mem hmem,
      htrimmed.trim_eq]
  · intro scheme context d
    exact ⟨fun h => AtomicRule.ofDeclaration_congr h scheme context d,
      AtomicRule.selfReference_not_mem_selector scheme context t d⟩

/-- A state of the element has one normal form and one rule, with blanks around
    it or without, and an element inside has another normal form. -/
theorem Selector.normalize_canonical_states :
    selfReference ∉ " :hover\n".toList ∧ selfReference ∉ ":hover".toList ∧
      Text.IsTrimmed ":hover".toList ∧ normalize " :hover\n".toList = normalize ":hover".toList ∧
      normalize "&:hover".toList = normalize ":hover".toList ∧
      normalize ":hover".toList ≠ normalize "a".toList ∧
      AtomicRule.ofDeclaration .default [] " :hover\n".toList ⟨['a'], ['b'], false, none⟩ =
        AtomicRule.ofDeclaration .default [] ":hover".toList ⟨['a'], ['b'], false, none⟩ := by
  have hblanks : selfReference ∉ " :hover\n".toList := by decide
  have hstate : selfReference ∉ ":hover".toList := by decide
  have hother : selfReference ∉ "a".toList := by decide
  have htrimmed : Text.IsTrimmed ":hover".toList := Text.isTrimmed_trim ":hover".toList
  obtain ⟨-, hsame, hspelt, hrules⟩ := normalize_canonical " :hover\n".toList ":hover".toList
  obtain ⟨-, hdifferent, -, -⟩ := normalize_canonical ":hover".toList "a".toList
  have hnormal := (hsame hblanks hstate).2 (by decide)
  refine ⟨hblanks, hstate, htrimmed, hnormal, hspelt htrimmed hstate, ?_,
    (hrules .default [] _).1 hnormal⟩
  rw [ne_eq, hdifferent hstate hother]
  decide

end StyleSlots
