import StyleSlots.Digest.ShortHash

/-! # The width of a short hash

    Whatever the digest of a text is, a short hash has exactly the wanted
    length and consists of digits only: missing ones are made up for with
    zeros, which are digits too, and the others are cut off. -/

namespace StyleSlots

theorem digit_mem_digits (d : Nat) : digit d ∈ digits := by
  unfold digit
  rw [List.getD_eq_getElem?_getD]
  cases h : digits[d]? with
  | none => decide
  | some c => exact List.mem_of_getElem? h

theorem mem_digits_of_mem_numeral {base n : Nat} : ∀ c ∈ numeral base n, c ∈ digits := by
  induction n using Nat.strongRecOn with
  | ind n ih =>
    intro c hc
    unfold numeral at hc
    split at hc
    · next h =>
      rw [List.mem_append, List.mem_singleton] at hc
      rcases hc with hc | rfl
      · exact ih (n / base) (Nat.div_lt_self (by omega) (by omega)) c hc
      · exact digit_mem_digits _
    · rw [List.mem_singleton.1 hc]
      exact digit_mem_digits _

namespace Text

theorem length_padLeft (c : Char) (width : Nat) (t : Text) :
    (padLeft c width t).length = max width t.length := by
  simp only [padLeft, List.length_append, List.length_replicate]
  omega

theorem mem_padLeft {a c : Char} {width : Nat} {t : Text} (h : a ∈ padLeft c width t) :
    a = c ∨ a ∈ t := by
  rw [padLeft, List.mem_append] at h
  rcases h with h | h
  · exact .inl (List.eq_of_mem_replicate h)
  · exact .inr h

end Text

/-- A width that is no negative number is only cut to from the right. -/
theorem shortHash_natCast (t : Text) (width : Nat) :
    shortHash t width = (Text.padLeft '0' width (digestNumeral t)).take width := rfl

theorem length_shortHash (t : Text) (width : Nat) : (shortHash t width).length = width := by
  rw [shortHash_natCast, List.length_take, Text.length_padLeft]
  omega

theorem mem_digits_of_mem_shortHash {t : Text} {width : Nat} :
    ∀ c ∈ shortHash t width, c ∈ digits := by
  intro c hc
  rw [shortHash_natCast] at hc
  rcases Text.mem_padLeft (List.mem_of_mem_take hc) with rfl | h
  · decide
  · exact mem_digits_of_mem_numeral c h

end StyleSlots
