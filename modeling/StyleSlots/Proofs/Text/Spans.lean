import StyleSlots.Text.Basic

/-! # Cutting at the first character of a kind

    A text is often cut where a predicate first fails: a run at a
    delimiter, a name at the first character that cannot be in it, a
    declaration at its colon. Where the cut falls is clear from what stands
    on either side of it. -/

namespace StyleSlots

namespace Text

variable {p : Char → Bool} {t rest : Text}

theorem takeWhile_append_of_stop (ht : ∀ c ∈ t, p c = true)
    (hrest : ∀ c ∈ rest.head?, p c = false) : (t ++ rest).takeWhile p = t := by
  rw [List.takeWhile_append_of_pos ht]
  cases rest with
  | nil => simp
  | cons c rest =>
    have hc : p c = false := hrest c (by simp)
    simp [hc]

theorem dropWhile_append_of_stop (ht : ∀ c ∈ t, p c = true)
    (hrest : ∀ c ∈ rest.head?, p c = false) : (t ++ rest).dropWhile p = rest := by
  rw [List.dropWhile_append_of_pos ht]
  cases rest with
  | nil => simp
  | cons c rest =>
    have hc : p c = false := hrest c (by simp)
    simp [hc]

theorem of_mem_takeWhile {c : Char} (h : c ∈ t.takeWhile p) : p c = true :=
  List.all_eq_true.1 List.all_takeWhile c h

/-- What is left behind the cut does not go on in the same way. -/
theorem head?_dropWhile (p : Char → Bool) (t : Text) :
    ∀ c ∈ (t.dropWhile p).head?, p c = false := by
  intro c hc
  have h := List.head?_dropWhile_not p t
  rw [Option.mem_def.1 hc] at h
  exact h

/-- A text in which `c` does not occur is known from the place of the first
    `c` behind it. -/
theorem append_cons_inj {a b s t : Text} {c : Char} (ha : c ∉ a) (hb : c ∉ b)
    (h : a ++ c :: s = b ++ c :: t) : a = b ∧ s = t := by
  have hcut : ∀ u v : Text, c ∉ u → (u ++ c :: v).takeWhile (· ≠ c) = u := by
    intro u v hu
    refine takeWhile_append_of_stop ?_ (by simp)
    intro d hd
    have hne : d ≠ c := by
      rintro rfl
      exact hu hd
    simpa using hne
  have hab : a = b := by rw [← hcut a s ha, h, hcut b t hb]
  subst hab
  have htail := List.append_cancel_left h
  exact ⟨rfl, (List.cons.inj htail).2⟩

end Text

end StyleSlots
