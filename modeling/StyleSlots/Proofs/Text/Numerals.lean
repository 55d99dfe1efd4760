import Mathlib.Algebra.Group.Nat.Defs
import Mathlib.Data.List.Basic
import Mathlib.Data.List.GetD
import Mathlib.Data.List.Induction
import StyleSlots.Text.Numeral

/-! # Reading numerals back

    - **Digits**: as many as there are, each stands for its own value.
    - **Numerals**: read in the base in which it was written, a numeral
      gives its number again. Different numbers therefore have different
      numerals.
    - **One form**: a text of digits without a zero in front is the numeral
      of the number that it is read as, so each number has one numeral. -/

namespace StyleSlots

/-! ## Digits -/

/-- The value of a digit. -/
def digitValue (c : Char) : Nat := digits.idxOf c

theorem digitValue_digit {d : Nat} (h : d < 36) : digitValue (digit d) = d := by
  have hall : ∀ d < 36, digitValue (digit d) = d := by decide
  exact hall d h

theorem digitValue_lt_iff {c : Char} : digitValue c < 36 ↔ c ∈ digits := by
  have hlength : digits.length = 36 := rfl
  rw [digitValue, ← hlength, List.idxOf_lt_length_iff]

theorem digit_digitValue {c : Char} (h : c ∈ digits) : digit (digitValue c) = c := by
  have hlt := List.idxOf_lt_length_iff.2 h
  rw [digit, digitValue, List.getD_eq_getElem _ _ hlt, List.getElem_idxOf hlt]

/-- The digits are the decimal digits and the lowercase letters. -/
theorem mem_digits_iff {c : Char} : c ∈ digits ↔ c.isDigit = true ∨ c.isLower = true := by
  constructor
  · have hall : digits.all (fun c => c.isDigit || c.isLower) = true := by decide
    intro h
    simpa using List.all_eq_true.1 hall c h
  · -- either class is a range of code points, all of which are in the table
    have hrange : ∀ first last : Nat, (∀ k < last + 1 - first, Char.ofNat (first + k) ∈ digits) →
        first ≤ c.toNat → c.toNat ≤ last → c ∈ digits := by
      intro first last htable hleast hmost
      obtain ⟨k, hk⟩ := Nat.exists_eq_add_of_le hleast
      rw [← Char.ofNat_toNat c, hk]
      exact htable k (by omega)
    rintro (h | h)
    · obtain ⟨hleast, hmost⟩ := (Bool.and_eq_true _ _).mp h
      exact hrange 48 57 (by decide) (UInt32.le_iff_toNat_le.1 (of_decide_eq_true hleast))
        (UInt32.le_iff_toNat_le.1 (of_decide_eq_true hmost))
    · obtain ⟨hleast, hmost⟩ := (Bool.and_eq_true _ _).mp h
      exact hrange 97 122 (by decide) (UInt32.le_iff_toNat_le.1 (of_decide_eq_true hleast))
        (UInt32.le_iff_toNat_le.1 (of_decide_eq_true hmost))

/-! ## Values -/

/-- The number that a numeral stands for. -/
def numeralValue (base : Nat) (t : Text) : Nat :=
  t.foldl (fun n c => base * n + digitValue c) 0

theorem numeralValue_concat (base : Nat) (t : Text) (c : Char) :
    numeralValue base (t ++ [c]) = base * numeralValue base t + digitValue c := by
  simp [numeralValue]

theorem numeralValue_numeral {base : Nat} (hbase : 2 ≤ base) (hdigits : base ≤ 36) (n : Nat) :
    numeralValue base (numeral base n) = n := by
  induction n using Nat.strongRecOn with
  | ind n ih =>
    unfold numeral
    by_cases h : base ≤ n
    · -- the last digit is the remainder, and the others are the quotient's
      have hquotient : n / base < n := Nat.div_lt_self (by omega) (by omega)
      have hremainder : n % base < base := Nat.mod_lt n (by omega)
      rw [dif_pos ⟨hbase, h⟩, numeralValue_concat, ih _ hquotient,
        digitValue_digit (by omega)]
      exact Nat.div_add_mod n base
    · rw [dif_neg (by omega)]
      have hn : n < 36 := by omega
      simp [numeralValue, digitValue_digit hn]

theorem numeral_injective {base : Nat} (hbase : 2 ≤ base) (hdigits : base ≤ 36) {m n : Nat}
    (h : numeral base m = numeral base n) : m = n := by
  rw [← numeralValue_numeral hbase hdigits m, h, numeralValue_numeral hbase hdigits n]

theorem numeral_ne_nil (base n : Nat) : numeral base n ≠ [] := by
  unfold numeral
  split <;> simp

/-! ## One form -/

theorem numeral_of_lt {base n : Nat} (h : n < base) : numeral base n = [digit n] := by
  rw [numeral, dif_neg (by omega)]

/-- One more digit behind the numeral of a number. -/
theorem numeral_mul_add {base v d : Nat} (hbase : 2 ≤ base) (hv : 0 < v) (hd : d < base) :
    numeral base (base * v + d) = numeral base v ++ [digit d] := by
  have hle : base ≤ base * v + d := by
    have := Nat.le_mul_of_pos_right base hv
    omega
  have hquotient : (base * v + d) / base = v := by
    rw [Nat.mul_add_div (by omega), Nat.div_eq_of_lt hd, Nat.add_zero]
  have hremainder : (base * v + d) % base = d := by
    rw [Nat.mul_add_mod, Nat.mod_eq_of_lt hd]
  rw [numeral, dif_pos ⟨hbase, hle⟩, hquotient, hremainder]

/-- A number has as many digits as the power of the base calls for that it is
    less than. -/
theorem length_numeral_le {base k n : Nat} (h : n < base ^ (k + 1)) :
    (numeral base n).length ≤ k + 1 := by
  induction k generalizing n with
  | zero =>
    rw [numeral_of_lt (by simpa using h)]
    exact Nat.le_refl 1
  | succ k ih =>
    unfold numeral
    split
    · have hquotient : n / base < base ^ (k + 1) :=
        Nat.div_lt_of_lt_mul (by rwa [← Nat.pow_succ'])
      rw [List.length_append, List.length_singleton]
      exact Nat.succ_le_succ (ih hquotient)
    · simp

/-- Whether a text is written as numerals are: digits of the base, and a zero
    in front only if it stands alone. -/
structure IsNumeral (base : Nat) (t : Text) : Prop where
  ne_nil   : t ≠ []
  digit_lt : ∀ c ∈ t, digitValue c < base
  leading  : t.head? = some '0' → t = ['0']

theorem numeralValue_singleton (base : Nat) (c : Char) : numeralValue base [c] = digitValue c := by
  simp [numeralValue]

theorem isNumeral_numeral {base : Nat} (hbase : 2 ≤ base) (hdigits : base ≤ 36) (n : Nat) :
    IsNumeral base (numeral base n) := by
  induction n using Nat.strongRecOn with
  | ind n ih =>
    by_cases h : base ≤ n
    · have hquotient : n / base < n := Nat.div_lt_self (by omega) (by omega)
      have hpos : 0 < n / base := Nat.div_pos h (by omega)
      have hremainder : n % base < base := Nat.mod_lt n (by omega)
      obtain ⟨hne, hdigit, hleading⟩ := ih _ hquotient
      have hnumeral : numeral base n = numeral base (n / base) ++ [digit (n % base)] := by
        rw [← numeral_mul_add hbase hpos hremainder, Nat.div_add_mod]
      rw [hnumeral]
      refine ⟨by simp, ?_, ?_⟩
      · intro c hc
        rcases List.mem_append.1 hc with hc | hc
        · exact hdigit c hc
        · rw [List.mem_singleton.1 hc, digitValue_digit (by omega)]
          exact hremainder
      · -- the numeral of a positive quotient does not start with a zero
        intro hhead
        rw [List.head?_append_of_ne_nil _ hne] at hhead
        have hvalue := numeralValue_numeral hbase hdigits (n / base)
        rw [hleading hhead, numeralValue_singleton] at hvalue
        have hzero : digitValue '0' = 0 := by decide
        omega
    · rw [numeral_of_lt (by omega)]
      refine ⟨by simp, ?_, ?_⟩
      · intro c hc
        rw [List.mem_singleton.1 hc, digitValue_digit (by omega)]
        omega
      · intro hhead
        rw [Option.some.inj hhead]

/-- What is written as a numeral is the numeral of its value. -/
theorem IsNumeral.eq_numeral {base : Nat} (hbase : 2 ≤ base) (hdigits : base ≤ 36) {t : Text}
    (h : IsNumeral base t) : t = numeral base (numeralValue base t) := by
  induction t using List.reverseRecOn with
  | nil => exact absurd rfl h.ne_nil
  | append_singleton s c ih =>
    have hc : digitValue c < base := h.digit_lt c (by simp)
    have hdigit : digit (digitValue c) = c :=
      digit_digitValue (digitValue_lt_iff.1 (by omega))
    by_cases hs : s = []
    · rw [hs, List.nil_append, numeralValue_singleton, numeral_of_lt hc, hdigit]
    · -- nothing but the last digit would be left behind a leading zero
      have hleading : s.head? ≠ some '0' := by
        intro hhead
        have hall := h.leading (by rw [List.head?_append_of_ne_nil _ hs]; exact hhead)
        have hlength := congrArg List.length hall
        have hpos := List.length_pos_iff.2 hs
        rw [List.length_append, List.length_singleton, List.length_singleton] at hlength
        omega
      have hnumeral := ih ⟨hs, fun d hd => h.digit_lt d (List.mem_append_left _ hd),
        fun hhead => absurd hhead hleading⟩
      have hpos : 0 < numeralValue base s := by
        apply Nat.pos_of_ne_zero
        intro hzero
        rw [hzero, numeral_of_lt (by omega)] at hnumeral
        apply hleading
        rw [hnumeral]
        rfl
      rw [numeralValue_concat, numeral_mul_add hbase hpos hc, ← hnumeral, hdigit]

theorem eq_numeral_iff {base : Nat} (hbase : 2 ≤ base) (hdigits : base ≤ 36) {t : Text} {n : Nat} :
    t = numeral base n ↔ IsNumeral base t ∧ numeralValue base t = n := by
  constructor
  · rintro rfl
    exact ⟨isNumeral_numeral hbase hdigits n, numeralValue_numeral hbase hdigits n⟩
  · rintro ⟨h, rfl⟩
    exact h.eq_numeral hbase hdigits

/-- Only zero starts with a zero. -/
theorem head?_numeral_eq_zero_iff {base : Nat} (hbase : 2 ≤ base) (hdigits : base ≤ 36) {n : Nat} :
    (numeral base n).head? = some '0' ↔ n = 0 := by
  constructor
  · intro hhead
    have hvalue := numeralValue_numeral hbase hdigits n
    rw [(isNumeral_numeral hbase hdigits n).leading hhead, numeralValue_singleton] at hvalue
    exact hvalue.symm
  · rintro rfl
    rw [numeral_of_lt (by omega)]
    rfl

end StyleSlots
