import StyleSlots.Proofs.Text.Words

/-! # Lines of a text

    - **Cutting**: the lines of a text are the stretches between its line
      feeds, and an empty text has no lines.
    - **Putting together**: parts that are joined by line feeds keep their
      own lines. The parts are read back as they were if and only if each of
      them is a line. -/

namespace StyleSlots

namespace Text

/-- The lines of a text, without the line feeds between them. -/
def lines (t : Text) : List Text := if t = [] then [] else fields (· = '\n') t

theorem lines_of_ne_nil {t : Text} (h : t ≠ []) : lines t = fields (· = '\n') t := if_neg h

theorem not_mem_of_mem_lines {t line : Text} (h : line ∈ lines t) : '\n' ∉ line := by
  intro hmem
  unfold lines at h
  split at h
  · cases h
  · have hfeed := not_of_mem_fields h '\n' hmem
    simp at hfeed

theorem lines_of_not_mem {t : Text} (ht : t ≠ []) (h : '\n' ∉ t) : lines t = [t] := by
  rw [lines_of_ne_nil ht, fields_of_forall_not]
  intro c hc
  rw [decide_eq_false_iff_not]
  rintro rfl
  exact h hc

/-- Joined parts keep their lines. -/
theorem lines_join {ts : List Text} (h : [] ∉ ts) : lines (join ['\n'] ts) = ts.flatMap lines := by
  induction ts with
  | nil => rfl
  | cons t ts ih =>
    have ht : t ≠ [] := fun ht => h (ht ▸ List.mem_cons_self ..)
    have hts : [] ∉ ts := fun hmem => h (List.mem_cons_of_mem _ hmem)
    cases ts with
    | nil => simp [join]
    | cons u more =>
      have hjoin : join ['\n'] (t :: u :: more) = t ++ '\n' :: join ['\n'] (u :: more) := by
        simp [join]
      have hmore : join ['\n'] (u :: more) ≠ [] := by
        rw [ne_eq, join_eq_nil_iff hts]
        simp
      have hfeed : decide ('\n' = '\n') = true := by decide
      rw [hjoin, lines_of_ne_nil (by simp), fields_append_cons hfeed, ← lines_of_ne_nil ht,
        ← lines_of_ne_nil hmore, ih hts]
      exact List.flatMap_cons.symm

/-- Parts are read back from their lines if there is no line feed in them. -/
theorem flatMap_lines_eq_self_iff {ts : List Text} (h : [] ∉ ts) :
    ts.flatMap lines = ts ↔ ∀ t ∈ ts, '\n' ∉ t := by
  constructor
  · intro heq t ht
    rw [← heq] at ht
    obtain ⟨_, _, hline⟩ := List.mem_flatMap.1 ht
    exact not_mem_of_mem_lines hline
  · intro hall
    have hlines : ∀ t ∈ ts, lines t = [t] := by
      intro t ht
      have hne : t ≠ [] := fun hnil => h (hnil ▸ ht)
      exact lines_of_not_mem hne (hall t ht)
    rw [List.flatMap_congr hlines, List.flatMap_singleton']

end Text

end StyleSlots
