import StyleSlots.Text.Basic
import Mathlib.Data.List.Basic

/-! # Words of a text

    - **Splitting**: the words of a text are those in front of a blank and
      those behind it. All else about words follows from this equation.
    - **Reading back**: words put together with spaces are read back as
      they were. -/

namespace StyleSlots

namespace Text

/-! ## Fields -/

theorem fields_ne_nil (p : Char → Bool) (t : Text) : fields p t ≠ [] := by
  induction t with
  | nil => simp [fields]
  | cons c rest ih =>
    unfold fields
    split
    · simp
    · split <;> simp

/-- A character that starts no new field belongs to the first one. -/
theorem fields_cons_of_not {p : Char → Bool} {c : Char} (hc : p c = false) {t field : Text}
    {more : List Text} (h : fields p t = field :: more) :
    fields p (c :: t) = (c :: field) :: more := by
  unfold fields
  rw [if_neg (by simp [hc]), h]

theorem fields_append_cons {p : Char → Bool} {s : Char} (hs : p s = true) (a b : Text) :
    fields p (a ++ s :: b) = fields p a ++ fields p b := by
  induction a with
  | nil => simp [fields, hs]
  | cons c a ih =>
    obtain ⟨field, more, hf⟩ := List.exists_cons_of_ne_nil (fields_ne_nil p a)
    rw [hf, List.cons_append] at ih
    by_cases hc : p c = true
    · simp [fields, hc, ih, hf]
    · rw [List.cons_append, fields_cons_of_not (by simpa using hc) ih,
        fields_cons_of_not (by simpa using hc) hf]
      rfl

theorem fields_of_forall_not {p : Char → Bool} {t : Text} (h : ∀ c ∈ t, p c = false) :
    fields p t = [t] := by
  induction t with
  | nil => rfl
  | cons c t ih =>
    have ht := ih fun a ha => h a (List.mem_cons_of_mem _ ha)
    exact fields_cons_of_not (h c (List.mem_cons_self ..)) ht

theorem not_of_mem_fields {p : Char → Bool} {t field : Text} (h : field ∈ fields p t) :
    ∀ c ∈ field, p c = false := by
  induction t generalizing field with
  | nil =>
    have : field = [] := by simpa [fields] using h
    simp [this]
  | cons c t ih =>
    obtain ⟨first, more, hf⟩ := List.exists_cons_of_ne_nil (fields_ne_nil p t)
    by_cases hc : p c = true
    · simp only [fields, hc, if_true, List.mem_cons] at h
      rcases h with rfl | h
      · simp
      · exact ih h
    · rw [fields_cons_of_not (by simpa using hc) hf, List.mem_cons] at h
      rcases h with rfl | h
      · intro a ha
        rcases List.mem_cons.1 ha with rfl | ha
        · simpa using hc
        · exact ih (hf ▸ List.mem_cons_self ..) a ha
      · exact ih (hf ▸ List.mem_cons_of_mem _ h)

/-! ## Words -/

/-- A text that is not empty and has no blank in it. -/
structure IsWord (t : Text) : Prop where
  ne_nil   : t ≠ []
  no_blank : ∀ c ∈ t, isBlank c = false

@[simp] theorem words_nil : words [] = [] := by simp [words, fields]

theorem isWord_of_mem_words {t w : Text} (h : w ∈ words t) : IsWord w := by
  obtain ⟨hw, hne⟩ := List.mem_filter.1 h
  exact ⟨by simpa using hne, not_of_mem_fields hw⟩

/-- No word reaches across a blank. -/
theorem words_append_cons {s : Char} (hs : isBlank s = true) (a b : Text) :
    words (a ++ s :: b) = words a ++ words b := by
  unfold words
  rw [fields_append_cons hs, List.filter_append]

theorem words_of_isWord {t : Text} (h : IsWord t) : words t = [t] := by
  unfold words
  rw [fields_of_forall_not h.no_blank]
  simp [h.ne_nil]

theorem isWord_of_mem_flatMap_words {ts : List Text} :
    ∀ t ∈ ts.flatMap words, IsWord t := by
  intro t ht
  obtain ⟨_, _, hword⟩ := List.mem_flatMap.1 ht
  exact isWord_of_mem_words hword

theorem flatMap_words {ts : List Text} (h : ∀ t ∈ ts, IsWord t) :
    ts.flatMap words = ts := by
  have hwords : ∀ t ∈ ts, t.words = [t] := fun t ht => words_of_isWord (h t ht)
  rw [List.flatMap_congr hwords, List.flatMap_singleton']

theorem join_eq_nil_iff {separator : Text} {ts : List Text} (h : [] ∉ ts) :
    join separator ts = [] ↔ ts = [] := by
  cases ts with
  | nil => simp [join]
  | cons t ts =>
    have ht : t ≠ [] := fun ht => h (ht ▸ List.mem_cons_self ..)
    cases ts <;> simp [join, ht]

/-- What is joined is made of the separator and the parts. -/
theorem mem_join {separator : Text} {c : Char} (hc : c ∉ separator) {ts : List Text} :
    c ∈ join separator ts ↔ ∃ t ∈ ts, c ∈ t := by
  induction ts with
  | nil => simp [join]
  | cons t ts ih =>
    cases ts with
    | nil => simp [join]
    | cons u more => simp [join, hc, ih]

theorem isBlank_space : isBlank ' ' = true := by decide

/-- Words put together with spaces between them are read back. -/
theorem words_join {ws : List Text} (h : ∀ w ∈ ws, IsWord w) : words (join [' '] ws) = ws := by
  induction ws with
  | nil => simp [join]
  | cons w ws ih =>
    have hw := words_of_isWord (h w (List.mem_cons_self ..))
    have hws := ih fun a ha => h a (List.mem_cons_of_mem _ ha)
    cases ws with
    | nil => simpa [join] using hw
    | cons v vs =>
      have hjoin : join [' '] (w :: v :: vs) = w ++ ' ' :: join [' '] (v :: vs) := by
        simp [join]
      rw [hjoin, words_append_cons isBlank_space, hw, hws]
      rfl

end Text

end StyleSlots
