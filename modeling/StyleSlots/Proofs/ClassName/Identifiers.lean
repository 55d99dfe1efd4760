import StyleSlots.Proofs.ClassName.Generated

/-! # Generated names as identifiers

    A class name goes into a page and comes back to the merger as a piece
    of a class text. Both need it to be a single identifier.

    - **Identifier**: a letter or underscore with digits behind it, as many
      as both widths call for. It has no blank, so a class text that
      consists of it has one token, whose key is as long as it should be.
    - **Line breaks**: a sentinel is also accepted if a line break follows
      its one character. Names then come apart at the line break, and
      neither half starts with the whole sentinel.
    - **Main statement**: `isIdentifier_encode_iff`, the names of an accepted
      scheme are identifiers if its sentinel is one character long, and not
      one of them is if it has a line break. -/

namespace StyleSlots

/-! ## Accepted schemes -/

namespace Scheme

variable {sentinel : Text} {groupWidth declarationWidth : Int} {supported : List Text}
  {scheme : Scheme}

/-- An accepted scheme has the parts that were given. -/
theorem parts_of_ofParts
    (h : ofParts sentinel groupWidth declarationWidth supported = .ok scheme) :
    scheme.sentinel = sentinel ∧ (scheme.groupWidth : Int) = groupWidth ∧
      (scheme.declarationWidth : Int) = declarationWidth ∧ scheme.supported = supported := by
  unfold ofParts at h
  split at h
  · split at h
    · next hwidths =>
      obtain rfl := Except.ok.inj h
      exact ⟨rfl, Int.toNat_of_nonneg (by omega), Int.toNat_of_nonneg (by omega), rfl⟩
    · cases h
  · cases h

end Scheme

/-! ## Identifiers -/

namespace ClassName

variable {scheme : Scheme}

/-- Whether a name is an identifier of the shape that a scheme calls for, and
    a token that the merger takes for a generated name. -/
structure IsIdentifier (scheme : Scheme) (name : Text) : Prop where
  shape       : ∃ first tail, name = first :: tail ∧ isNameStart first = true ∧
    tail.length = scheme.groupWidth + scheme.declarationWidth ∧ ∀ c ∈ tail, c ∈ digits
  no_blank    : ∀ c ∈ name, isBlank c = false
  classify_eq : ∃ key, key <+: name ∧ key.length = scheme.groupLength ∧
    classify scheme name = [(some key, name)]

/-- A name that comes apart at a line break: what stands in front of it is
    too short for the merger, and what stands behind it has no sentinel. -/
structure IsBroken (scheme : Scheme) (name : Text) : Prop where
  shape       : ∃ first tail, name = first :: '\n' :: tail ∧ isNameStart first = true ∧
    tail.length = scheme.groupWidth + scheme.declarationWidth ∧
    (∀ c ∈ tail, c ∈ digits) ∧ classify scheme name = [(none, [first]), (none, tail)]

theorem IsBroken.not_isIdentifier {name : Text} (h : IsBroken scheme name) :
    ¬ IsIdentifier scheme name := by
  intro hidentifier
  obtain ⟨first, tail, rfl, -⟩ := h.shape
  have hblank := hidentifier.no_blank '\n' (by simp)
  cases hblank

theorem isIdentifier_encode (h : scheme.sentinel.length = 1) (context : List Text)
    (selector : Text) (d : Declaration) :
    IsIdentifier scheme (encode scheme context selector d) where
  shape := by
    obtain ⟨tail, htail, hlength, hdigits⟩ := exists_tail scheme context selector d
    obtain ⟨first, hfirst, hsentinel | hsentinel⟩ := scheme.sentinel_cases
    · exact ⟨first, tail, by rw [htail, hsentinel, List.singleton_append], hfirst, hlength, hdigits⟩
    · rw [hsentinel] at h
      cases h
  no_blank := (isWord_encode h context selector d).no_blank
  classify_eq := by
    refine ⟨_, List.prefix_append _ _, ?_, (generated_encode h context selector d).classify_eq⟩
    rw [List.length_append, length_groupHash]
    rfl

/-- Digits are not taken for a generated name if the sentinel has a line
    break. -/
theorem groupKey?_digits {first : Char} (h : scheme.sentinel = [first, '\n']) {tail : Text}
    (htail : ∀ c ∈ tail, c ∈ digits) : groupKey? scheme tail = none := by
  have hnot : ¬ isAtomic scheme tail = true := by
    rw [isAtomic, Bool.and_eq_true, List.isPrefixOf_iff_prefix, h]
    rintro ⟨hstart, -⟩
    exact absurd (htail '\n' (hstart.subset (by simp))) (by decide)
  rw [groupKey?, if_neg hnot]

/-- One character is not enough for a generated name. -/
theorem groupKey?_singleton (scheme : Scheme) (first : Char) :
    groupKey? scheme [first] = none := by
  have hnot : ¬ isAtomic scheme [first] = true := by
    obtain ⟨c, -, hsentinel | hsentinel⟩ := scheme.sentinel_cases
    · have hwidth := scheme.groupWidth_pos
      simp only [isAtomic, Scheme.groupLength, hsentinel, List.length_singleton, Bool.and_eq_true,
        decide_eq_true_eq]
      omega
    · simp [isAtomic, Scheme.groupLength, hsentinel]
  rw [groupKey?, if_neg hnot]

theorem isBroken_encode {first : Char} (hfirst : isNameStart first = true)
    (h : scheme.sentinel = [first, '\n']) (context : List Text) (selector : Text)
    (d : Declaration) : IsBroken scheme (encode scheme context selector d) where
  shape := by
    obtain ⟨tail, htail, hlength, hdigits⟩ := exists_tail scheme context selector d
    have hname : encode scheme context selector d = [first] ++ '\n' :: tail := by rw [htail, h]; rfl
    refine ⟨first, tail, hname, hfirst, hlength, hdigits, ?_⟩
    -- the merger splits at the line break before it looks at a token
    have hfront : Text.IsWord [first] :=
      ⟨by simp, List.forall_mem_singleton.2 (isBlank_of_isNameStart hfirst)⟩
    have hback : Text.IsWord tail :=
      ⟨tail_ne_nil hlength, fun c hc => isBlank_of_mem_digits c (hdigits c hc)⟩
    have hbreak : isBlank '\n' = true := by decide
    rw [hname, classify, Text.words_append_cons hbreak, Text.words_of_isWord hfront,
      Text.words_of_isWord hback]
    simp only [List.singleton_append, List.map_cons, List.map_nil, groupKey?_singleton,
      groupKey?_digits h hdigits]

/-- A scheme is accepted with any sentinel that is a letter or underscore,
    alone or in front of a line break. In the first case every name that it
    gives is an identifier, whatever the context, the selector and the
    declaration; in the other case every name comes apart. -/
theorem isIdentifier_encode_iff {sentinel : Text} {groupWidth declarationWidth : Int}
    {supported : List Text}
    (h : Scheme.ofParts sentinel groupWidth declarationWidth supported = .ok scheme)
    (context : List Text) (selector : Text) (d : Declaration) :
    (scheme.sentinel = sentinel ∧ (scheme.groupWidth : Int) = groupWidth ∧
      (scheme.declarationWidth : Int) = declarationWidth) ∧
    (IsIdentifier scheme (encode scheme context selector d) ↔ sentinel.length = 1) ∧
    (IsBroken scheme (encode scheme context selector d) ↔ sentinel.length ≠ 1) := by
  obtain ⟨rfl, hgroup, hdeclaration, -⟩ := Scheme.parts_of_ofParts h
  refine ⟨⟨rfl, hgroup, hdeclaration⟩, ?_⟩
  obtain ⟨first, hfirst, hsentinel | hsentinel⟩ := scheme.sentinel_cases
  · have hlength : scheme.sentinel.length = 1 := by rw [hsentinel]; rfl
    have hidentifier := isIdentifier_encode hlength context selector d
    exact ⟨iff_of_true hidentifier hlength,
      iff_of_false (fun hbroken => hbroken.not_isIdentifier hidentifier) (not_not.2 hlength)⟩
  · have hlength : scheme.sentinel.length ≠ 1 := by rw [hsentinel]; simp
    have hbroken := isBroken_encode hfirst hsentinel context selector d
    exact ⟨iff_of_false hbroken.not_isIdentifier hlength, iff_of_true hbroken hlength⟩

/-- A scheme with a line break in its sentinel and hashes of different
    lengths. -/
def brokenScheme : Scheme where
  sentinel := ['x', '\n']
  groupWidth := 1
  declarationWidth := 12
  supported := []
  sentinel_valid := by decide
  groupWidth_pos := by decide
  declarationWidth_pos := by decide

theorem isIdentifier_encode_iff_broken :
    Scheme.ofParts ['x', '\n'] 1 12 [] = .ok brokenScheme ∧
      Scheme.ofParts ['_'] 4 4 Scheme.defaultSupported = .ok .default ∧
      IsBroken brokenScheme (encode brokenScheme ["mediaprint".toList] ['&']
        ⟨"color".toList, "red".toList, true, none⟩) ∧
      IsIdentifier .default (encode .default ["mediaprint".toList] ['&']
        ⟨"color".toList, "red".toList, true, none⟩) := by
  have hbroken : Scheme.ofParts ['x', '\n'] 1 12 [] = .ok brokenScheme := rfl
  have hdefault : Scheme.ofParts ['_'] 4 4 Scheme.defaultSupported = .ok .default := rfl
  obtain ⟨-, -, hapart⟩ := isIdentifier_encode_iff hbroken ["mediaprint".toList] ['&']
    ⟨"color".toList, "red".toList, true, none⟩
  obtain ⟨-, hwhole, -⟩ := isIdentifier_encode_iff hdefault ["mediaprint".toList] ['&']
    ⟨"color".toList, "red".toList, true, none⟩
  exact ⟨hbroken, hdefault, hapart.2 (by decide), hwhole.2 rfl⟩

/-- Not every accepted scheme gives identifiers: behind an underscore with a
    line break the name of a red color has a blank in it, and the merger sees
    two tokens, neither of which it takes for a generated name. -/
theorem encode_broken : ∃ scheme : Scheme,
    Scheme.ofParts ['_', '\n'] 4 4 Scheme.defaultSupported = .ok scheme ∧
      ¬ IsIdentifier scheme (encode scheme [] ['&'] ⟨"color".toList, "red".toList, false, none⟩) ∧
      '\n' ∈ encode scheme [] ['&'] ⟨"color".toList, "red".toList, false, none⟩ ∧
      (classify scheme (encode scheme [] ['&']
        ⟨"color".toList, "red".toList, false, none⟩)).map Prod.fst = [none, none] := by
  refine ⟨⟨['_', '\n'], 4, 4, Scheme.defaultSupported, by decide, by decide, by decide⟩, rfl, ?_⟩
  generalize hscheme : Scheme.mk ['_', '\n'] 4 4 Scheme.defaultSupported _ _ _ = scheme
  have hsentinel : scheme.sentinel = ['_', '\n'] := by rw [← hscheme]
  have hbroken := isBroken_encode (by decide) hsentinel [] ['&']
    ⟨"color".toList, "red".toList, false, none⟩
  refine ⟨hbroken.not_isIdentifier, ?_⟩
  obtain ⟨first, tail, hname, -, -, -, hclassify⟩ := hbroken.shape
  rw [hclassify, hname]
  exact ⟨by simp, rfl⟩

end ClassName

end StyleSlots
