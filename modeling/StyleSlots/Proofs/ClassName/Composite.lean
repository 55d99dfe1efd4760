import StyleSlots.ClassName
import StyleSlots.Proofs.Digest.Width
import StyleSlots.Proofs.Text.Numerals
import StyleSlots.Proofs.Text.Trimmed

/-! # Composites decode unambiguously

    The text that is hashed spells a list of symbols: the characters of the
    components, and a separator between two components.

    - **Prefix code**: no spelling of a symbol goes on as that of another
      one. A safe character is no underscore; an escape has a digit behind
      its underscore, where the separator has a second underscore; and two
      escapes end at the underscore behind their digits.
    - **Symbols**: what is spelt can be read from left to right, so two
      lists of symbols with one spelling are equal.
    - **Main statement**: `composite_unambiguous`, two composites are equal
      exactly if their components are, up to blanks. -/

namespace StyleSlots

namespace ClassName

/-! ## Spelling -/

/-- How a symbol is spelt: a character of a component, or, if there is
    none, the separator. -/
def spell : Option Char → Text
  | some c => escape c
  | none => separator

theorem isSafe_underscore : isSafe '_' = false := by decide

theorem underscore_not_mem_digits : '_' ∉ digits := by decide

theorem underscore_not_mem_hexNumeral (n : Nat) : '_' ∉ hexNumeral n := fun h =>
  underscore_not_mem_digits (mem_digits_of_mem_numeral _ h)

theorem escape_of_isSafe {c : Char} (h : isSafe c = true) : escape c = [c] := by
  rw [escape, if_pos h]

theorem escape_of_not_isSafe {c : Char} (h : isSafe c = false) :
    escape c = '_' :: hexNumeral c.toNat ++ ['_'] := by
  rw [escape, if_neg (by simp [h])]

theorem escape_ne_nil (c : Char) : escape c ≠ [] := by
  unfold escape
  split <;> simp

/-- An escape does not start as the separator does. -/
theorem escape_append_ne {c : Char} (s t : Text) : escape c ++ s ≠ separator ++ t := by
  intro h
  by_cases hc : isSafe c = true
  · rw [escape_of_isSafe hc] at h
    have hunderscore : c = '_' := (List.cons.inj h).1
    rw [hunderscore, isSafe_underscore] at hc
    cases hc
  · rw [escape_of_not_isSafe (by simpa using hc)] at h
    obtain ⟨d, ds, hd⟩ := List.exists_cons_of_ne_nil (numeral_ne_nil 16 c.toNat)
    have hsecond : d = '_' := by
      rw [hexNumeral, hd] at h
      exact (List.cons.inj (List.cons.inj h).2).1
    refine underscore_not_mem_hexNumeral c.toNat ?_
    rw [hexNumeral, hd, hsecond]
    exact List.mem_cons_self ..

/-- From the start of a text an escape is read in one way only. -/
theorem eq_of_escape_append {c d : Char} {s t : Text} (h : escape c ++ s = escape d ++ t) :
    c = d := by
  by_cases hc : isSafe c = true <;> by_cases hd : isSafe d = true
  · rw [escape_of_isSafe hc, escape_of_isSafe hd] at h
    exact (List.cons.inj h).1
  · rw [escape_of_isSafe hc, escape_of_not_isSafe (by simpa using hd)] at h
    rw [(List.cons.inj h).1, isSafe_underscore] at hc
    cases hc
  · rw [escape_of_not_isSafe (by simpa using hc), escape_of_isSafe hd] at h
    rw [← (List.cons.inj h).1, isSafe_underscore] at hd
    cases hd
  · -- the digits of both end at the same underscore
    rw [escape_of_not_isSafe (by simpa using hc), escape_of_not_isSafe (by simpa using hd)] at h
    have hdigits : hexNumeral c.toNat ++ '_' :: s = hexNumeral d.toNat ++ '_' :: t := by
      simpa using h
    have hnumeral := (Text.append_cons_inj (underscore_not_mem_hexNumeral _)
      (underscore_not_mem_hexNumeral _) hdigits).1
    exact Char.toNat_inj.1 (numeral_injective (by omega) (by omega) hnumeral)

/-- The spellings are a prefix code. -/
theorem eq_of_spell_append {x y : Option Char} {s t : Text} (h : spell x ++ s = spell y ++ t) :
    x = y := by
  cases x with
  | none =>
    cases y with
    | none => rfl
    | some d => exact absurd h.symm (escape_append_ne t s)
  | some c =>
    cases y with
    | none => exact absurd h (escape_append_ne s t)
    | some d => rw [eq_of_escape_append h]

theorem spell_ne_nil (x : Option Char) : spell x ≠ [] := by
  cases x with
  | none => simp [spell, separator]
  | some c => exact escape_ne_nil c

/-- What is spelt can be read again. -/
theorem flatMap_spell_injective {xs ys : List (Option Char)}
    (h : xs.flatMap spell = ys.flatMap spell) : xs = ys := by
  induction xs generalizing ys with
  | nil =>
    cases ys with
    | nil => rfl
    | cons y ys =>
      rw [List.flatMap_nil, List.flatMap_cons] at h
      exact absurd (List.append_eq_nil_iff.1 h.symm).1 (spell_ne_nil y)
  | cons x xs ih =>
    cases ys with
    | nil =>
      rw [List.flatMap_nil, List.flatMap_cons] at h
      exact absurd (List.append_eq_nil_iff.1 h).1 (spell_ne_nil x)
    | cons y ys =>
      rw [List.flatMap_cons, List.flatMap_cons] at h
      have hxy := eq_of_spell_append h
      subst hxy
      rw [ih (List.append_cancel_left h)]

/-! ## Components -/

/-- The symbols of a list of components. -/
def symbols : List Text → List (Option Char)
  | [] => []
  | [part] => part.map some
  | part :: more => part.map some ++ none :: symbols more

theorem map_some_inj {s t : Text} (h : s.map some = t.map some) : s = t :=
  (List.map_inj_right fun _ _ => Option.some.inj).1 h

theorem none_not_mem_map_some (t : Text) : none ∉ t.map some := by simp

/-- The end of the first component is where the first separator is. -/
theorem map_some_append_none_inj {s t : Text} {xs ys : List (Option Char)}
    (h : s.map some ++ none :: xs = t.map some ++ none :: ys) : s = t ∧ xs = ys := by
  induction s generalizing t with
  | nil =>
    cases t with
    | nil => exact ⟨rfl, by simpa using h⟩
    | cons d t => simp at h
  | cons c s ih =>
    cases t with
    | nil => simp at h
    | cons d t =>
      simp only [List.map_cons, List.cons_append, List.cons.injEq, Option.some.injEq] at h
      obtain ⟨rfl, h⟩ := h
      obtain ⟨rfl, rfl⟩ := ih h
      exact ⟨rfl, rfl⟩

theorem symbols_cons_ne_nil {part : Text} (h : part ≠ []) (more : List Text) :
    symbols (part :: more) ≠ [] := by
  cases more with
  | nil => simpa [symbols] using h
  | cons next more => simp [symbols]

/-- Components that are not empty can be told from their symbols. -/
theorem symbols_injective {ps qs : List Text} (hp : ∀ p ∈ ps, p ≠ []) (hq : ∀ q ∈ qs, q ≠ [])
    (h : symbols ps = symbols qs) : ps = qs := by
  induction ps generalizing qs with
  | nil =>
    cases qs with
    | nil => rfl
    | cons q qs => exact absurd h.symm (symbols_cons_ne_nil (hq q (List.mem_cons_self ..)) qs)
  | cons p ps ih =>
    cases qs with
    | nil => exact absurd h (symbols_cons_ne_nil (hp p (List.mem_cons_self ..)) ps)
    | cons q qs =>
      cases ps with
      | nil =>
        cases qs with
        | nil =>
          have hpq : p = q := map_some_inj h
          rw [hpq]
        | cons r qs =>
          -- a separator on one side only
          refine absurd ?_ (none_not_mem_map_some p)
          rw [show p.map some = symbols [p] from rfl, h]
          simp [symbols]
      | cons p' ps =>
        cases qs with
        | nil =>
          refine absurd ?_ (none_not_mem_map_some q)
          rw [show q.map some = symbols [q] from rfl, ← h]
          simp [symbols]
        | cons q' qs =>
          obtain ⟨rfl, hrest⟩ := map_some_append_none_inj h
          rw [ih (fun a ha => hp a (List.mem_cons_of_mem _ ha))
            (fun a ha => hq a (List.mem_cons_of_mem _ ha)) hrest]

/-! ## Composites -/

/-- The components that count: without blanks at their ends, with single
    spaces inside, and not empty. -/
def components (parts : List Text) : List Text :=
  (parts.map fun t => t.trim.squeeze).filter (! ·.isEmpty)

theorem safe_eq (t : Text) : safe t = (t.trim.squeeze.map some).flatMap spell := by
  rw [safe, Text.collapse_eq_squeeze_trim, List.flatMap_map]
  rfl

theorem isEmpty_safe (t : Text) : (safe t).isEmpty = t.trim.squeeze.isEmpty := by
  rw [safe, Text.collapse_eq_squeeze_trim]
  cases t.trim.squeeze with
  | nil => rfl
  | cons c s =>
    rw [List.flatMap_cons]
    simp [escape_ne_nil]

theorem join_separator (parts : List Text) :
    Text.join separator (parts.map fun t => (t.map some).flatMap spell) =
      (symbols parts).flatMap spell := by
  induction parts with
  | nil => rfl
  | cons part more ih =>
    cases more with
    | nil => rfl
    | cons next more =>
      have hsymbols : symbols (part :: next :: more) =
          part.map some ++ none :: symbols (next :: more) := rfl
      rw [hsymbols, List.flatMap_append, List.flatMap_cons, ← ih, ← List.append_assoc]
      rfl

/-- A composite spells the components that count. -/
theorem composite_eq (parts : List Text) :
    composite parts = (symbols (components parts)).flatMap spell := by
  have hparts : (parts.map safe).filter (! ·.isEmpty) =
      (components parts).map fun t => (t.map some).flatMap spell := by
    rw [components, List.filter_map, List.filter_map, List.map_map]
    have hsame : parts.filter ((! ·.isEmpty) ∘ safe) =
        parts.filter ((! ·.isEmpty) ∘ fun t => t.trim.squeeze) := by
      refine List.filter_congr ?_
      intro t _
      simp [isEmpty_safe]
    rw [hsame]
    refine List.map_congr_left ?_
    intro t _
    exact safe_eq t
  rw [composite, hparts, join_separator]

theorem ne_nil_of_mem_components {parts : List Text} : ∀ t ∈ components parts, t ≠ [] := by
  intro t ht
  simpa using (List.mem_filter.1 ht).2

/-- A character that may stand in a class name. -/
def isNameChar (c : Char) : Bool := c.isAlphanum || c = '-' || c = '_'

theorem isNameChar_of_mem_digits : ∀ c ∈ digits, isNameChar c = true := by
  have hall : digits.all isNameChar = true := by decide
  simpa using hall

theorem isNameChar_of_mem_spell {x : Option Char} {c : Char} (h : c ∈ spell x) :
    isNameChar c = true := by
  cases x with
  | none =>
    have hc : c = '_' := by simpa [spell, separator] using h
    rw [hc]
    decide
  | some d =>
    rw [spell] at h
    by_cases hd : isSafe d = true
    · rw [escape_of_isSafe hd, List.mem_singleton] at h
      rw [h, isNameChar, Bool.or_eq_true]
      exact .inl hd
    · rw [escape_of_not_isSafe (by simpa using hd)] at h
      have h' : c = '_' ∨ c ∈ hexNumeral d.toNat := by
        simpa [or_comm, or_assoc] using h
      rcases h' with rfl | h'
      · decide
      · exact isNameChar_of_mem_digits c (mem_digits_of_mem_numeral c h')

theorem composite_eq_iff {a b : List Text} :
    composite a = composite b ↔ components a = components b := by
  rw [composite_eq, composite_eq]
  constructor
  · intro h
    exact symbols_injective ne_nil_of_mem_components ne_nil_of_mem_components
      (flatMap_spell_injective h)
  · intro h
    rw [h]

theorem safe_eq_iff {s t : Text} : safe s = safe t ↔ s.trim.squeeze = t.trim.squeeze := by
  rw [safe_eq, safe_eq]
  constructor
  · intro h
    exact map_some_inj (flatMap_spell_injective h)
  · intro h
    rw [h]

theorem all_isNameChar_composite (parts : List Text) :
    (composite parts).all isNameChar = true := by
  rw [composite_eq, List.all_eq_true]
  intro c hc
  obtain ⟨x, _, hx⟩ := List.mem_flatMap.1 hc
  exact isNameChar_of_mem_spell hx

/-- Two composites are equal exactly if their components are equal after
    trimming, squeezing runs of blanks, and leaving out empty ones. The same
    holds for single safe texts, and a composite has only characters that
    may stand in a class name. -/
theorem composite_unambiguous :
    (∀ a b : List Text, composite a = composite b ↔ components a = components b) ∧
    (∀ s t : Text, safe s = safe t ↔ s.trim.squeeze = t.trim.squeeze) ∧
    ∀ parts : List Text, (composite parts).all isNameChar = true :=
  ⟨fun _ _ => composite_eq_iff, fun _ _ => safe_eq_iff, all_isNameChar_composite⟩

end ClassName

end StyleSlots
