import StyleSlots.Proofs.Digest.Width
import StyleSlots.Proofs.Slot
import StyleSlots.Proofs.Text.Numerals

/-! # Short hashes of one text

    A short hash is the numeral of a digest, written in as many characters
    as are wanted. A numeral has as many digits as its number calls for, so
    some lengths cut it and others fill it up.

    - **Few characters**: the hash is what the numeral starts with.
    - **Many characters**: zeros stand in front of the whole numeral, which
      therefore starts further and further to the right.
    - **Prefixes**: a hash continues a shorter one as long as the numeral is
      cut, and not any more once it is filled up.
    - **Refinement**: texts with the same hash have the same shorter hashes
      all the same, as the zeros in front of a numeral tell its length.
    - **Main statements**: `shortHash_exact`, what numerals and hashes look
      like; `shortHash_prefix_iff`, which hashes continue shorter ones. -/

namespace StyleSlots

/-! ## Cut and filled up -/

variable {s t : Text} {m n : Nat}

theorem shortHash_of_le (h : n ≤ (digestNumeral t).length) :
    shortHash t n = (digestNumeral t).take n := by
  rw [shortHash_natCast, Text.padLeft, Nat.sub_eq_zero_of_le h]
  rfl

theorem shortHash_of_ge (h : (digestNumeral t).length ≤ n) :
    shortHash t n = List.replicate (n - (digestNumeral t).length) '0' ++ digestNumeral t := by
  rw [shortHash_natCast, Text.padLeft, List.take_of_length_le]
  rw [List.length_append, List.length_replicate]
  omega

/-- The characters of a hash: the zeros that are missing, then the digits. -/
theorem getElem?_shortHash (t : Text) {i : Nat} (hi : i < n) :
    (shortHash t n)[i]? = if i < n - (digestNumeral t).length then some '0'
      else (digestNumeral t)[i - (n - (digestNumeral t).length)]? := by
  rw [shortHash_natCast, Text.padLeft, List.getElem?_take, if_pos hi, List.getElem?_append,
    List.length_replicate]
  split
  · next h => rw [List.getElem?_replicate, if_pos h]
  · rfl

/-! ## Numerals of digests -/

theorem isNumeral_digestNumeral (t : Text) : IsNumeral 36 (digestNumeral t) :=
  isNumeral_numeral (by decide) (by decide) _

theorem numeralValue_digestNumeral (t : Text) :
    numeralValue 36 (digestNumeral t) = (Sha256.digest t).toNat :=
  numeralValue_numeral (by decide) (by decide) _

theorem head?_digestNumeral_eq_zero_iff :
    (digestNumeral t).head? = some '0' ↔ Sha256.digest t = 0 := by
  rw [digestNumeral, head?_numeral_eq_zero_iff (by decide) (by decide)]
  exact BitVec.toNat_inj (y := 0#256)

/-- A digest is a number of at most fifty digits. -/
theorem length_digestNumeral_le (t : Text) : (digestNumeral t).length ≤ 50 := by
  have hpow : 2 ^ 256 ≤ 36 ^ 50 := by decide
  exact length_numeral_le (Nat.lt_of_lt_of_le (Sha256.digest t).isLt hpow)

/-- Zeros in front of a numeral do not count. -/
theorem numeralValue_replicate_append (base k : Nat) (t : Text) :
    numeralValue base (List.replicate k '0' ++ t) = numeralValue base t := by
  have hzero : digitValue '0' = 0 := by decide
  induction k with
  | zero => rfl
  | succ k ih =>
    rw [List.replicate_succ, List.cons_append, ← ih]
    simp [numeralValue, hzero]

/-- A hash with the whole numeral in it is read as the digest. -/
theorem numeralValue_shortHash (h : (digestNumeral t).length ≤ n) :
    numeralValue 36 (shortHash t n) = (Sha256.digest t).toNat := by
  rw [shortHash_of_ge h, numeralValue_replicate_append, numeralValue_digestNumeral]

/-! ## Prefixes -/

theorem shortHash_prefix_of_le (hmn : m ≤ n) (h : n ≤ (digestNumeral t).length) :
    shortHash t m <+: shortHash t n := by
  rw [shortHash_of_le h, shortHash_of_le (Nat.le_trans hmn h)]
  exact List.take_prefix_take_left hmn

/-- The hashes of the digest zero are made of zeros. -/
theorem shortHash_of_digest_eq_zero (h : Sha256.digest t = 0) (n : Nat) :
    shortHash t n = List.replicate n '0' := by
  have hnumeral : digestNumeral t = ['0'] :=
    (isNumeral_digestNumeral t).leading (head?_digestNumeral_eq_zero_iff.2 h)
  cases n with
  | zero => rfl
  | succ n =>
    rw [shortHash_of_ge (by simp [hnumeral]), hnumeral, ← List.replicate_succ']
    rfl

/-- Where a numeral is filled up, a zero has come to stand where the shorter
    hash has the first digit of the numeral. -/
theorem not_shortHash_prefix (hm : 0 < m) (hmn : m < n) (hn : (digestNumeral t).length < n)
    (hdigest : Sha256.digest t ≠ 0) : ¬ shortHash t m <+: shortHash t n := by
  rintro ⟨behind, hbehind⟩
  have hlength := List.length_pos_iff.2 (isNumeral_digestNumeral t).ne_nil
  have hshort : (shortHash t m)[m - (digestNumeral t).length]? = (digestNumeral t).head? := by
    rw [getElem?_shortHash t (by omega), if_neg (by omega), Nat.sub_self, List.head?_eq_getElem?]
  have hlong : (shortHash t n)[m - (digestNumeral t).length]? = some '0' := by
    rw [getElem?_shortHash t (by omega), if_pos (by omega)]
  rw [← hbehind, List.getElem?_append_left (by rw [length_shortHash]; omega), hshort] at hlong
  exact hdigest (head?_digestNumeral_eq_zero_iff.1 hlong)

/-! ## Refinement -/

/-- A hash that is filled up is not that of a numeral which is cut. -/
theorem length_digestNumeral_of_shortHash_eq (h : shortHash s n = shortHash t n)
    (hs : (digestNumeral s).length < n) : (digestNumeral t).length < n := by
  by_contra hle
  have hpos := List.length_pos_iff.2 (isNumeral_digestNumeral s).ne_nil
  have hzero : (shortHash s n)[0]? = some '0' := by
    rw [getElem?_shortHash s (by omega), if_pos (by omega)]
  rw [h, getElem?_shortHash t (by omega), if_neg (by omega), Nat.zero_sub,
    ← List.head?_eq_getElem?] at hzero
  -- the other numeral is a single zero, and there is room for more
  have hsingle := congrArg List.length ((isNumeral_digestNumeral t).leading hzero)
  rw [List.length_singleton] at hsingle
  omega

/-- Texts with the same hash have the same shorter hashes. -/
theorem shortHash_eq_of_le (hmn : m ≤ n) (h : shortHash s n = shortHash t n) :
    shortHash s m = shortHash t m := by
  by_cases hs : (digestNumeral s).length < n
  · -- both numerals are filled up, and read with their zeros they are the same
    have ht := length_digestNumeral_of_shortHash_eq h hs
    have hvalue := congrArg (numeralValue 36) h
    rw [numeralValue_shortHash (Nat.le_of_lt hs),
      numeralValue_shortHash (Nat.le_of_lt ht)] at hvalue
    have hnumeral : digestNumeral s = digestNumeral t := congrArg (numeral 36) hvalue
    rw [shortHash_natCast, shortHash_natCast, hnumeral]
  · have ht : ¬ (digestNumeral t).length < n :=
      fun ht => hs (length_digestNumeral_of_shortHash_eq h.symm ht)
    have hcut := congrArg (List.take m) h
    rw [shortHash_of_le (by omega), shortHash_of_le (by omega), List.take_take, List.take_take,
      Nat.min_eq_left hmn] at hcut
    rw [shortHash_of_le (by omega), shortHash_of_le (by omega), hcut]

/-! ## Hashes as numerals -/

/-- The numeral of a number in base 36 consists of decimal digits and lowercase
    letters, is read as the number again, and starts with a zero only if the
    number is zero. It is the one text with these properties, and different
    numbers have different numerals.

    A short hash of any length is made of as many such characters. If the
    numeral of the digest is long enough, they are its first digits, and
    otherwise the whole numeral behind the zeros that it lacks. -/
theorem shortHash_exact (n : Nat) (t : Text) (width : Nat) :
    ((∀ c ∈ numeral 36 n, c.isDigit = true ∨ c.isLower = true) ∧
      numeralValue 36 (numeral 36 n) = n ∧ ((numeral 36 n).head? = some '0' ↔ n = 0) ∧
      (∀ s : Text, s = numeral 36 n ↔ IsNumeral 36 s ∧ numeralValue 36 s = n) ∧
      ∀ m, numeral 36 m = numeral 36 n ↔ m = n) ∧
    (shortHash t width).length = width ∧
    (∀ c ∈ shortHash t width, c.isDigit = true ∨ c.isLower = true) ∧
    shortHash t width =
      if width ≤ (numeral 36 (Sha256.digest t).toNat).length then
        (numeral 36 (Sha256.digest t).toNat).take width
      else List.replicate (width - (numeral 36 (Sha256.digest t).toNat).length) '0' ++
        numeral 36 (Sha256.digest t).toNat := by
  have hbase : 2 ≤ 36 := by decide
  have hdigits : 36 ≤ 36 := by decide
  refine ⟨⟨?_, numeralValue_numeral hbase hdigits n, head?_numeral_eq_zero_iff hbase hdigits, ?_,
    ?_⟩, length_shortHash t width, ?_, ?_⟩
  · exact fun c hc => mem_digits_iff.1 (mem_digits_of_mem_numeral c hc)
  · exact fun s => eq_numeral_iff hbase hdigits
  · exact fun m => ⟨numeral_injective hbase hdigits, congrArg (numeral 36)⟩
  · exact fun c hc => mem_digits_iff.1 (mem_digits_of_mem_shortHash c hc)
  · split
    · next h => exact shortHash_of_le h
    · next h => exact shortHash_of_ge (Nat.le_of_lt (Nat.lt_of_not_le h))

/-! ## Longer and shorter hashes -/

/-- A hash of a text is a prefix of a longer one if and only if the digest has
    at least as many digits as the longer hash has characters, or one of these
    is the case: the shorter one is empty, they are as long as each other, or
    the digest is zero. No digest has more than fifty digits.

    Texts with the same hash have the same shorter hashes, whatever these
    lengths are. So the groups of a scheme with wider hashes lie within those
    of a scheme with narrower ones, and so do its declarations. -/
theorem shortHash_prefix_iff (t : Text) {m n : Nat} (h : m ≤ n) :
    (shortHash t m <+: shortHash t n ↔
      n ≤ (digestNumeral t).length ∨ m = 0 ∨ m = n ∨ Sha256.digest t = 0) ∧
    (digestNumeral t).length ≤ 50 ∧
    (∀ s : Text, shortHash s n = shortHash t n → shortHash s m = shortHash t m) ∧
    (∀ narrow wide : Scheme, narrow.groupWidth ≤ wide.groupWidth →
      ∀ a b : Slot, a.hash wide = b.hash wide → a.hash narrow = b.hash narrow) ∧
    ∀ narrow wide : Scheme, narrow.declarationWidth ≤ wide.declarationWidth →
      ∀ d e : Declaration, ClassName.declarationHash wide d.value d.important =
          ClassName.declarationHash wide e.value e.important →
        ClassName.declarationHash narrow d.value d.important =
          ClassName.declarationHash narrow e.value e.important := by
  refine ⟨⟨?_, ?_⟩, length_digestNumeral_le t, fun s => shortHash_eq_of_le h,
    fun narrow wide hwidth a b => shortHash_eq_of_le hwidth,
    fun narrow wide hwidth d e => shortHash_eq_of_le hwidth⟩
  · intro hcontinues
    by_contra hnot
    obtain ⟨hlong, hzero, hne, hdigest⟩ : (digestNumeral t).length < n ∧ m ≠ 0 ∧ m ≠ n ∧
        Sha256.digest t ≠ 0 := by simpa only [not_or, Nat.not_le] using hnot
    exact not_shortHash_prefix (Nat.pos_of_ne_zero hzero) (by omega) hlong hdigest hcontinues
  · rintro (hlong | rfl | rfl | hdigest)
    · exact shortHash_prefix_of_le h hlong
    · exact List.nil_prefix
    · exact List.prefix_refl _
    · rw [shortHash_of_digest_eq_zero hdigest, shortHash_of_digest_eq_zero hdigest]
      exact List.prefix_replicate_iff.2 ⟨by simpa using h, by simp⟩

/-- A scheme with hashes of eight characters. -/
def wideScheme : Scheme :=
  { Scheme.default with
    groupWidth := 8, declarationWidth := 8,
    groupWidth_pos := by decide, declarationWidth_pos := by decide }

/-- A slot in one block. -/
def joinedSlot : Slot := ⟨["ab".toList], ['&'], "color".toList⟩

/-- A slot in two blocks, whose labels make the same text. -/
def splitSlot : Slot := ⟨[['a'], ['b']], ['&'], "color".toList⟩

/-- With four and eight characters the numeral is cut, and two slots that are in
    one group of the wide scheme are in one group of the narrow one. -/
theorem shortHash_prefix_iff_color :
    4 ≤ 8 ∧ shortHash "color".toList 4 <+: shortHash "color".toList 8 ∧
      Scheme.default.groupWidth ≤ wideScheme.groupWidth ∧
      ∃ a b : Slot, a ≠ b ∧ a.hash wideScheme = b.hash wideScheme ∧
        a.hash .default = b.hash .default := by
  have hlong : 8 ≤ (digestNumeral "color".toList).length := by decide +kernel
  have hwidth : Scheme.default.groupWidth ≤ wideScheme.groupWidth := by decide
  obtain ⟨hcontinues, -, -, hgroups, -⟩ := shortHash_prefix_iff "color".toList
    (m := 4) (n := 8) (by decide)
  have hwide : joinedSlot.hash wideScheme = splitSlot.hash wideScheme := rfl
  exact ⟨by decide, hcontinues.2 (.inl hlong), hwidth, joinedSlot, splitSlot, by decide, hwide,
    hgroups _ _ hwidth _ _ hwide⟩

/-- Not every hash is a prefix of the longer ones: with more characters than the
    digest has digits, a hash starts with a zero. -/
theorem shortHash_filled_up :
    shortHash "color".toList 1 = ['2'] ∧
      (shortHash "color".toList 51).head? = some '0' ∧
      ¬ shortHash "color".toList 1 <+: shortHash "color".toList 51 := by
  have hone : shortHash "color".toList 1 = ['2'] := by decide +kernel
  have hmany : (shortHash "color".toList 51).head? = some '0' := by decide +kernel
  refine ⟨hone, hmany, ?_⟩
  rw [hone]
  rintro ⟨behind, hbehind⟩
  rw [← hbehind] at hmany
  cases hmany

end StyleSlots
