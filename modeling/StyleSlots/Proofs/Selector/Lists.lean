import StyleSlots.Proofs.Text.Trimmed
import StyleSlots.Selector

/-! # Selector lists are split as they are joined

    - **Nesting**: where a text leads from a place. Only a mark leads
      anywhere, and no blank is one.
    - **Wholeness**: a stretch in which no comma separates selectors.
    - **Separation**: the selectors of a list are whole, and all but the
      last one end where a comma separates.
    - **Main statements**: `isList_split`, splitting yields such selectors,
      trimmed and not empty; `split_joinList`, joined by commas they are
      split again into what they were. -/

namespace StyleSlots

namespace Selector

/-! ## Nesting -/

/-- The characters that open or close a quote or a bracket or separate
    selectors. -/
def marks : List Char := ['\'', '"', '(', ')', '[', ']', ',']

namespace Nesting

/-- Where the character behind a text stands. -/
def behind (n : Nesting) (t : Text) : Nesting := t.foldl after n

/-- A place that a text can lead to: a quote is opened by a quotation mark. -/
def Reachable (n : Nesting) : Prop := ∀ q ∈ n.quote, q = '\'' ∨ q = '"'

theorem behind_append (n : Nesting) (s t : Text) : n.behind (s ++ t) = (n.behind s).behind t := by
  simp [behind]

theorem reachable_outer : Reachable outer := by
  intro q hq
  cases hq

theorem Reachable.after {n : Nesting} (h : n.Reachable) (c : Char) : (n.after c).Reachable := by
  intro q hq
  obtain ⟨quote, depth⟩ := n
  cases quote with
  | some open' =>
    simp only [Nesting.after] at hq
    split at hq
    · cases hq
    · exact h q hq
  | none =>
    simp only [Nesting.after] at hq
    split at hq
    · next hquote =>
      obtain rfl : c = q := Option.some.inj hq
      exact hquote
    · split at hq
      · cases hq
      · split at hq <;> cases hq

theorem Reachable.behind {n : Nesting} (h : n.Reachable) (t : Text) : (n.behind t).Reachable := by
  induction t generalizing n with
  | nil => exact h
  | cons c t ih => exact ih (h.after c)

/-- A character that is no mark opens and closes nothing. -/
theorem after_of_not_mark {n : Nesting} (h : n.Reachable) {c : Char} (hc : c ∉ marks) :
    n.after c = n := by
  simp only [marks, List.mem_cons, List.not_mem_nil, or_false, not_or] at hc
  obtain ⟨hsingle, hdouble, hopen, hclose, hopen', hclose', -⟩ := hc
  obtain ⟨quote, depth⟩ := n
  cases quote with
  | some q =>
    have hcq : c ≠ q := by
      rcases h q rfl with rfl | rfl
      · exact hsingle
      · exact hdouble
    simp [after, hcq]
  | none => simp [after, hsingle, hdouble, hopen, hclose, hopen', hclose']

theorem behind_of_no_mark {n : Nesting} (h : n.Reachable) {t : Text} (ht : ∀ c ∈ t, c ∉ marks) :
    n.behind t = n := by
  induction t with
  | nil => rfl
  | cons c t ih =>
    have hc := after_of_not_mark h (ht c (List.mem_cons_self ..))
    show (n.after c).behind t = n
    rw [hc]
    exact ih fun d hd => ht d (List.mem_cons_of_mem _ hd)

theorem not_mark_of_blank {c : Char} (h : isBlank c = true) : c ∉ marks := by
  have hall : marks.all (fun d => ! isBlank d) = true := by decide
  intro hc
  have hnot := List.all_eq_true.1 hall c hc
  simp [h] at hnot

theorem behind_of_blank {n : Nesting} (h : n.Reachable) {t : Text}
    (ht : ∀ c ∈ t, isBlank c = true) : n.behind t = n :=
  behind_of_no_mark h fun c hc => not_mark_of_blank (ht c hc)

/-- Trimming a text does not change where it leads. -/
theorem behind_trim (t : Text) : outer.behind t.trim = outer.behind t := by
  obtain ⟨before, end', heq, hbefore, hend⟩ := Text.exists_trim t
  -- blanks lead nowhere, in front of the text from the outside and behind it
  -- from wherever it leads
  have hreach := reachable_outer.behind t.trim
  calc outer.behind t.trim = (outer.behind t.trim).behind end' := (behind_of_blank hreach hend).symm
    _ = ((outer.behind before).behind t.trim).behind end' := by
      rw [behind_of_blank reachable_outer hbefore]
    _ = outer.behind (before ++ t.trim ++ end') := by rw [behind_append, behind_append]
    _ = outer.behind t := by rw [← heq]

end Nesting

/-! ## Wholeness -/

/-- Whether no comma separates selectors in a text that starts at `n`. -/
def Whole : Nesting → Text → Prop
  | _, [] => True
  | n, c :: t => ¬ (c = ',' ∧ n = .outer) ∧ Whole (n.after c) t

theorem whole_append {n : Nesting} {s t : Text} :
    Whole n (s ++ t) ↔ Whole n s ∧ Whole (n.behind s) t := by
  induction s generalizing n with
  | nil =>
    constructor
    · intro h
      exact ⟨trivial, h⟩
    · intro h
      exact h.2
  | cons c s ih =>
    rw [List.cons_append, Whole, Whole, ih, and_assoc]
    rfl

theorem whole_trim {t : Text} (h : Whole .outer t) : Whole .outer t.trim := by
  obtain ⟨before, end', heq, hbefore, _⟩ := Text.exists_trim t
  rw [heq, whole_append, whole_append] at h
  rw [← Nesting.behind_of_blank Nesting.reachable_outer hbefore]
  exact h.1.2

/-- A whole text belongs to the first stretch of what it stands before. -/
theorem stretches_append {n : Nesting} {s t first : Text} {more : List Text} (hs : Whole n s)
    (ht : stretches (n.behind s) t = first :: more) :
    stretches n (s ++ t) = (s ++ first) :: more := by
  induction s generalizing n with
  | nil => exact ht
  | cons c s ih =>
    have htail := ih hs.2 ht
    rw [List.cons_append, stretches, if_neg hs.1, htail]
    rfl

theorem stretches_of_whole {n : Nesting} {s : Text} (hs : Whole n s) : stretches n s = [s] := by
  have h : stretches n (s ++ []) = [s ++ []] := stretches_append hs rfl
  rwa [List.append_nil] at h

/-- A comma at the outside ends a stretch. -/
theorem stretches_append_comma {s : Text} (hs : Whole .outer s)
    (hend : Nesting.behind .outer s = .outer) (t : Text) :
    stretches .outer (s ++ ',' :: t) = s :: stretches .outer t := by
  have hcomma : stretches (Nesting.behind .outer s) (',' :: t) = [] :: stretches .outer t := by
    rw [hend, stretches, if_pos ⟨rfl, rfl⟩]
  have h := stretches_append hs hcomma
  rwa [List.append_nil] at h

/-! ## Separation -/

/-- Whether texts are whole and all but the last one lead back to the
    outside. -/
def Separated : List Text → Prop
  | [] => True
  | s :: more =>
    Whole .outer s ∧ (more ≠ [] → Nesting.behind .outer s = .outer) ∧ Separated more

theorem exists_stretches (n : Nesting) (t : Text) :
    ∃ first more, stretches n t = first :: more ∧ Whole n first ∧
      (more ≠ [] → n.behind first = .outer) ∧ Separated more := by
  induction t generalizing n with
  | nil => exact ⟨[], [], rfl, trivial, fun h => absurd rfl h, trivial⟩
  | cons c t ih =>
    by_cases hc : c = ',' ∧ n = .outer
    · -- a new stretch starts behind the comma
      obtain ⟨first, more, hstretches, hwhole, hend, hmore⟩ := ih .outer
      refine ⟨[], first :: more, ?_, trivial, fun _ => hc.2, hwhole, hend, hmore⟩
      rw [stretches, if_pos hc, hc.2, hstretches]
    · obtain ⟨first, more, hstretches, hwhole, hend, hmore⟩ := ih (n.after c)
      refine ⟨c :: first, more, ?_, ⟨hc, hwhole⟩, hend, hmore⟩
      rw [stretches, if_neg hc, hstretches]

theorem separated_stretches (t : Text) : Separated (stretches .outer t) := by
  obtain ⟨first, more, hstretches, hwhole, hend, hmore⟩ := exists_stretches .outer t
  rw [hstretches]
  exact ⟨hwhole, hend, hmore⟩

theorem Separated.map_trim {ss : List Text} (h : Separated ss) : Separated (ss.map Text.trim) := by
  induction ss with
  | nil => trivial
  | cons s ss ih =>
    refine ⟨whole_trim h.1, ?_, ih h.2.2⟩
    intro hmore
    rw [Nesting.behind_trim]
    exact h.2.1 (by simpa using hmore)

theorem Separated.filter {ss : List Text} (h : Separated ss) (p : Text → Bool) :
    Separated (ss.filter p) := by
  induction ss with
  | nil => trivial
  | cons s ss ih =>
    rw [List.filter_cons]
    split
    · refine ⟨h.1, ?_, ih h.2.2⟩
      intro hmore
      refine h.2.1 ?_
      rintro rfl
      exact hmore rfl
    · exact ih h.2.2

/-! ## Lists -/

/-- The selectors of a list: separated, trimmed and not empty. -/
structure IsList (ss : List Text) : Prop where
  separated : Separated ss
  trimmed   : ∀ s ∈ ss, Text.IsTrimmed s
  ne_nil    : ∀ s ∈ ss, s ≠ []

theorem isList_split (t : Text) : IsList (split t) where
  separated := (separated_stretches t).map_trim.filter _
  trimmed := by
    intro s hs
    obtain ⟨stretch, _, rfl⟩ := List.mem_map.1 (List.mem_filter.1 hs).1
    exact Text.isTrimmed_trim stretch
  ne_nil := by
    intro s hs
    simpa using (List.mem_filter.1 hs).2

theorem IsList.tail {s : Text} {ss : List Text} (h : IsList (s :: ss)) : IsList ss where
  separated := h.separated.2.2
  trimmed := fun a ha => h.trimmed a (List.mem_cons_of_mem _ ha)
  ne_nil := fun a ha => h.ne_nil a (List.mem_cons_of_mem _ ha)

theorem IsList.whole {ss : List Text} (h : IsList ss) : ∀ s ∈ ss, Whole .outer s := by
  induction ss with
  | nil => simp
  | cons first more ih => exact List.forall_mem_cons.2 ⟨h.separated.1, ih h.tail⟩

/-- A space in front of a list does not count. -/
theorem split_space_cons (t : Text) : split (' ' :: t) = split t := by
  obtain ⟨first, more, hstretches, _⟩ := exists_stretches .outer t
  -- the space belongs to the first stretch and is trimmed off it
  have hspace : stretches .outer (' ' :: t) = (' ' :: first) :: more :=
    stretches_append (s := [' ']) ⟨by simp, trivial⟩ hstretches
  have htrim : Text.trim (' ' :: first) = Text.trim first := rfl
  unfold split
  rw [hspace, hstretches, List.map_cons, List.map_cons, htrim]

/-- Selectors that are joined by commas are split again. -/
theorem split_joinList {ss : List Text} (h : IsList ss) : split (joinList ss) = ss := by
  induction ss with
  | nil => rfl
  | cons s ss ih =>
    have hwhole := h.separated.1
    have htrim := (h.trimmed s (List.mem_cons_self ..)).trim_eq
    have hne := h.ne_nil s (List.mem_cons_self ..)
    cases ss with
    | nil =>
      show split s = [s]
      unfold split
      rw [stretches_of_whole hwhole]
      simp [htrim, hne]
    | cons next ss =>
      -- the comma that is written stands outside of quotes and brackets
      have hend := h.separated.2.1 (by simp)
      have hjoin : joinList (s :: next :: ss) = s ++ ',' :: ' ' :: joinList (next :: ss) := by
        simp [joinList, Text.join]
      have hsplit : split (s ++ ',' :: ' ' :: joinList (next :: ss)) =
          s :: split (' ' :: joinList (next :: ss)) := by
        unfold split
        rw [stretches_append_comma hwhole hend, List.map_cons, htrim,
          List.filter_cons_of_pos (by simpa using hne)]
      rw [hjoin, hsplit, split_space_cons, ih h.tail]

/-- A list that starts neither with a comma nor with a blank has a first
    selector, and that starts as the list does. -/
theorem exists_split_cons {c : Char} (hcomma : c ≠ ',') (hblank : isBlank c = false) (t : Text) :
    ∃ first more, split (c :: t) = first :: more ∧ first.head? = some c := by
  obtain ⟨first, more, hstretches, _⟩ := exists_stretches (Nesting.outer.after c) t
  have hhead := Text.head?_trim_cons hblank first
  have hne : Text.trim (c :: first) ≠ [] := by
    intro hnil
    rw [hnil] at hhead
    cases hhead
  refine ⟨Text.trim (c :: first), (more.map Text.trim).filter (! ·.isEmpty), ?_, hhead⟩
  unfold split
  rw [stretches, if_neg (fun h => hcomma h.1), hstretches, List.map_cons,
    List.filter_cons_of_pos (by simpa using hne)]

/-! ## Characters -/

theorem mem_of_mem_stretches {n : Nesting} {t s : Text} {c : Char} (hs : s ∈ stretches n t)
    (hc : c ∈ s) : c ∈ t := by
  induction t generalizing n s with
  | nil =>
    have hnil : s = [] := by simpa [stretches] using hs
    rw [hnil] at hc
    cases hc
  | cons d t ih =>
    by_cases hd : d = ',' ∧ n = .outer
    · rw [stretches, if_pos hd] at hs
      rcases List.mem_cons.1 hs with rfl | hs
      · cases hc
      · exact List.mem_cons_of_mem _ (ih hs hc)
    · obtain ⟨first, more, hstretches, _⟩ := exists_stretches (n.after d) t
      rw [stretches, if_neg hd, hstretches] at hs
      rcases List.mem_cons.1 hs with rfl | hs
      · rcases List.mem_cons.1 hc with rfl | hc
        · exact List.mem_cons_self ..
        · exact List.mem_cons_of_mem _ (ih (by rw [hstretches]; exact List.mem_cons_self ..) hc)
      · exact List.mem_cons_of_mem _ (ih (by rw [hstretches]; exact List.mem_cons_of_mem _ hs) hc)

/-- The selectors of a list are made of its characters. -/
theorem mem_of_mem_split {t s : Text} {c : Char} (hs : s ∈ split t) (hc : c ∈ s) : c ∈ t := by
  obtain ⟨stretch, hstretch, rfl⟩ := List.mem_map.1 (List.mem_filter.1 hs).1
  exact mem_of_mem_stretches hstretch (Text.mem_of_mem_trim hc)

theorem mem_joinList {ss : List Text} {c : Char} (h : c ∈ joinList ss) :
    c = ',' ∨ c = ' ' ∨ ∃ s ∈ ss, c ∈ s := by
  by_cases hc : c ∈ ", ".toList
  · have hseparator : c = ',' ∨ c = ' ' := by simpa using hc
    rcases hseparator with rfl | rfl
    · exact .inl rfl
    · exact .inr (.inl rfl)
  · exact .inr (.inr ((Text.mem_join hc).1 h))

end Selector

end StyleSlots
