import StyleSlots.ClassList.Fragment
import StyleSlots.Proofs.Digest.Width
import StyleSlots.Proofs.Slot
import StyleSlots.Proofs.Text.Words

/-! # Generated class names

    The compiler writes class names and the merger takes them apart. All
    that they share is the scheme, so the width of every part has to come
    out as the scheme says.

    - **Shape**: the sentinel, and digits for the two hashes behind it.
    - **Reading back**: if the sentinel is one character long, then no blank
      is in a name, and what the merger cuts off as the group key is the
      sentinel with the hash of the slot. -/

namespace StyleSlots

/-! ## Digits and sentinels are no blanks -/

theorem isBlank_of_mem_digits : ∀ c ∈ digits, isBlank c = false := by
  have hall : digits.all (fun c => ! isBlank c) = true := by decide
  simpa using hall

theorem isBlank_of_isNameStart {c : Char} (h : isNameStart c = true) : isBlank c = false := by
  have hrange : c.toNat = 95 ∨ (65 ≤ c.toNat ∧ c.toNat ≤ 90) ∨ (97 ≤ c.toNat ∧ c.toNat ≤ 122) := by
    rw [isNameStart, Bool.or_eq_true, decide_eq_true_iff] at h
    rcases h with h | rfl
    · rcases (Bool.or_eq_true _ _).mp h with h | h
      · have hupper : 'A'.val ≤ c.val ∧ c.val ≤ 'Z'.val := of_decide_eq_true h
        exact .inr (.inl ⟨UInt32.le_iff_toNat_le.1 hupper.1, UInt32.le_iff_toNat_le.1 hupper.2⟩)
      · obtain ⟨hleast, hmost⟩ := (Bool.and_eq_true _ _).mp h
        exact .inr (.inr ⟨UInt32.le_iff_toNat_le.1 (of_decide_eq_true hleast),
          UInt32.le_iff_toNat_le.1 (of_decide_eq_true hmost)⟩)
    · exact .inl rfl
  simp only [isBlank, inRanges, blankRanges, List.any_cons, List.any_nil, Bool.or_eq_false_iff,
    Bool.and_eq_false_iff, decide_eq_false_iff_not, and_true]
  omega

/-- A sentinel is a letter or underscore, alone or with a line break behind
    it. -/
theorem Scheme.sentinel_cases (scheme : Scheme) : ∃ first, isNameStart first = true ∧
    (scheme.sentinel = [first] ∨ scheme.sentinel = [first, '\n']) := by
  have hvalid := scheme.sentinel_valid
  generalize scheme.sentinel = sentinel at hvalid
  unfold isSentinel at hvalid
  split at hvalid
  · exact ⟨_, hvalid, .inl rfl⟩
  · exact ⟨_, hvalid, .inr rfl⟩
  · cases hvalid

/-- A sentinel that is one character long is a word. -/
theorem Scheme.isWord_sentinel {scheme : Scheme} (h : scheme.sentinel.length = 1) :
    Text.IsWord scheme.sentinel := by
  obtain ⟨c, hc⟩ := List.length_eq_one_iff.1 h
  have hvalid := scheme.sentinel_valid
  rw [hc] at hvalid ⊢
  refine ⟨by simp, ?_⟩
  intro a ha
  rw [List.mem_singleton.1 ha]
  exact isBlank_of_isNameStart hvalid

/-! ## Names -/

namespace ClassName

variable {scheme : Scheme}

/-- A class name as the compiler writes it for a slot with the hash `hash`
    and as the merger reads it. -/
structure Generated (scheme : Scheme) (hash name : Text) : Prop where
  /-- Behind the sentinel stand as many digits as both widths call for. -/
  shape : ∃ tail, name = scheme.sentinel ++ tail ∧
    tail.length = scheme.groupWidth + scheme.declarationWidth ∧ ∀ c ∈ tail, c ∈ digits
  /-- In a class text the name is one token, of the group of the slot. -/
  classify_eq : classify scheme name = [(some (scheme.sentinel ++ hash), name)]

theorem length_groupHash (scheme : Scheme) (context : List Text) (selector prop : Text) :
    (groupHash scheme context selector prop).length = scheme.groupWidth :=
  length_shortHash _ _

theorem length_declarationHash (scheme : Scheme) (value : Text) (important : Bool) :
    (declarationHash scheme value important).length = scheme.declarationWidth :=
  length_shortHash _ _

/-- The digits of a name. -/
theorem exists_tail (scheme : Scheme) (context : List Text) (selector : Text) (d : Declaration) :
    ∃ tail, encode scheme context selector d = scheme.sentinel ++ tail ∧
      tail.length = scheme.groupWidth + scheme.declarationWidth ∧ ∀ c ∈ tail, c ∈ digits := by
  refine ⟨groupHash scheme context selector d.prop ++
    declarationHash scheme d.value d.important, ?_, ?_, ?_⟩
  · rw [encode, List.append_assoc]
  · rw [List.length_append, length_groupHash, length_declarationHash]
  · intro c hc
    rcases List.mem_append.1 hc with hc | hc
    · exact mem_digits_of_mem_shortHash c hc
    · exact mem_digits_of_mem_shortHash c hc

/-- Neither hash is empty. -/
theorem tail_ne_nil {tail : Text}
    (h : tail.length = scheme.groupWidth + scheme.declarationWidth) : tail ≠ [] := by
  rintro rfl
  have hwidth := scheme.groupWidth_pos
  rw [List.length_nil] at h
  omega

/-- Characters that are neither allowed in a sentinel nor digits are in no
    name. -/
theorem not_mem_encode (others : List Char)
    (h : others.all (fun c => ! (isNameStart c || c = '\n' || digits.contains c)) = true)
    (scheme : Scheme) (context : List Text) (selector : Text) (d : Declaration) :
    ∀ c ∈ encode scheme context selector d, c ∉ others := by
  obtain ⟨tail, htail, -, hdigits⟩ := exists_tail scheme context selector d
  obtain ⟨first, hfirst, hsentinel⟩ := scheme.sentinel_cases
  intro c hc hother
  have hnot := List.all_eq_true.1 h c hother
  simp only [Bool.not_eq_true', Bool.or_eq_false_iff, decide_eq_false_iff_not,
    List.contains_eq_mem] at hnot
  rw [htail, List.mem_append] at hc
  rcases hc with hc | hc
  · rcases hsentinel with hsentinel | hsentinel
    · rw [hsentinel, List.mem_singleton] at hc
      simp [hc, hfirst] at hnot
    · rw [hsentinel, List.mem_cons, List.mem_singleton] at hc
      rcases hc with rfl | rfl
      · simp [hfirst] at hnot
      · simp at hnot
  · exact hnot.2 (hdigits c hc)

/-- What the merger takes for the group key of a name, whatever the length
    of the sentinel. -/
theorem groupKey?_encode (scheme : Scheme) (context : List Text) (selector : Text)
    (d : Declaration) : groupKey? scheme (encode scheme context selector d) =
      some (scheme.sentinel ++ groupHash scheme context selector d.prop) := by
  -- the merger cuts off a prefix that is exactly as long as the key
  have hlength : (scheme.sentinel ++ groupHash scheme context selector d.prop).length =
      scheme.groupLength := by
    rw [List.length_append, length_groupHash]
    rfl
  have hprefix : scheme.sentinel ++ groupHash scheme context selector d.prop <+:
      encode scheme context selector d := List.prefix_append _ _
  have hatomic : isAtomic scheme (encode scheme context selector d) = true := by
    rw [isAtomic, Bool.and_eq_true, decide_eq_true_iff, List.isPrefixOf_iff_prefix, ← hlength]
    exact ⟨(List.prefix_append _ _).trans hprefix, hprefix.length_le⟩
  rw [groupKey?, if_pos hatomic, encode, ← hlength, List.take_left]

theorem isWord_encode (h : scheme.sentinel.length = 1) (context : List Text) (selector : Text)
    (d : Declaration) : Text.IsWord (encode scheme context selector d) := by
  have hsentinel := Scheme.isWord_sentinel h
  obtain ⟨tail, htail, _, hdigits⟩ := exists_tail scheme context selector d
  rw [htail]
  refine ⟨by simp [hsentinel.ne_nil], ?_⟩
  intro c hc
  rcases List.mem_append.1 hc with hc | hc
  · exact hsentinel.no_blank c hc
  · exact isBlank_of_mem_digits c (hdigits c hc)

theorem generated_encode (h : scheme.sentinel.length = 1) (context : List Text) (selector : Text)
    (d : Declaration) : Generated scheme (groupHash scheme context selector d.prop)
      (encode scheme context selector d) where
  shape := exists_tail scheme context selector d
  classify_eq := by
    rw [classify, Text.words_of_isWord (isWord_encode h context selector d), List.map_singleton,
      groupKey?_encode]

end ClassName

/-! ## Names of placements -/

namespace Placement

variable {scheme : Scheme}

theorem groupKey?_name (scheme : Scheme) (p : Placement) :
    ClassName.groupKey? scheme (p.name scheme) = some (p.key scheme) :=
  ClassName.groupKey?_encode ..

theorem isWord_name (h : scheme.sentinel.length = 1) (p : Placement) :
    Text.IsWord (p.name scheme) :=
  ClassName.isWord_encode h ..

theorem generated_name (h : scheme.sentinel.length = 1) (p : Placement) :
    ClassName.Generated scheme (p.slot.hash scheme) (p.name scheme) :=
  ClassName.generated_encode h ..

/-- Names that differ behind their group hashes differ. -/
theorem name_ne {p r : Placement}
    (h : ClassName.declarationHash scheme p.declaration.value p.declaration.important ≠
      ClassName.declarationHash scheme r.declaration.value r.declaration.important) :
    p.name scheme ≠ r.name scheme := by
  intro heq
  rw [name_eq, name_eq] at heq
  refine h (List.append_inj' heq ?_).2
  exact (ClassName.length_declarationHash ..).trans (ClassName.length_declarationHash ..).symm

end Placement

end StyleSlots
