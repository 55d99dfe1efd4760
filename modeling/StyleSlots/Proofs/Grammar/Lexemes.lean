import StyleSlots.Lexeme.Basic
import StyleSlots.Proofs.Text.Spans

/-! # The lexemes of the grammar

    What a text may start with is said here without the way in which the
    start is looked for.

    - **Runs**: a first character that may start one, and no delimiter.
    - **Heads**: the name of an at-rule, as long as it can be, and what
      stands behind it up to a delimiter.
    - **Main statement**: `next?_eq_some_iff`, a lexeme is found at the
      start of a text exactly if the text is its spelling with something
      behind it that it fits. -/

namespace StyleSlots

/-! ## Characters -/

theorem startsRun_iff {c : Char} : startsRun c = true ↔
    c ≠ '@' ∧ c ≠ '/' ∧ isDelimiter c = false ∧ isBlank c = false := by
  simp [startsRun, and_assoc]

theorem isDelimiter_iff {c : Char} : isDelimiter c = true ↔ c = '\x7b' ∨ c = '\x7d' ∨ c = ';' := by
  simp [isDelimiter, or_assoc]

theorem isGap_iff {c : Char} :
    isGap c = true ↔ c = ' ' ∨ c = '\t' ∨ c = '\n' ∨ c = '\r' ∨ c = '\x0c' := by
  simp [isGap, or_assoc]

theorem isBlank_of_isGap {c : Char} (h : isGap c = true) : isBlank c = true := by
  rcases isGap_iff.1 h with rfl | rfl | rfl | rfl | rfl <;> rfl

theorem isDelimiter_of_isAtNameChar {c : Char} (h : isAtNameChar c = true) :
    isDelimiter c = false := by
  by_cases hc : isDelimiter c = true
  · rcases isDelimiter_iff.1 hc with rfl | rfl | rfl <;> cases h
  · simpa using hc

/-! ## Spellings -/

/-- The text of a selector list or of a declaration. -/
structure IsRun (t : Text) : Prop where
  start        : ∃ c ∈ t.head?, startsRun c = true
  no_delimiter : ∀ c ∈ t, isDelimiter c = false

/-- The name of an at-rule with what stands behind it. -/
structure IsAtHead (name params : Text) : Prop where
  ne_nil       : name ≠ []
  name_char    : ∀ c ∈ name, isAtNameChar c = true
  /-- The name is as long as it can be. -/
  name_ends    : ∀ c ∈ params.head?, isAtNameChar c = false
  no_delimiter : ∀ c ∈ params, isDelimiter c = false

theorem isRun_iff {t : Text} :
    (t.head?.any startsRun && t.all (! isDelimiter ·)) = true ↔ IsRun t := by
  rw [Bool.and_eq_true, List.all_eq_true]
  constructor
  · rintro ⟨hstart, hall⟩
    refine ⟨?_, fun c hc => by simpa using hall c hc⟩
    cases hhead : t.head? with
    | none =>
      rw [hhead] at hstart
      cases hstart
    | some c =>
      rw [hhead] at hstart
      exact ⟨c, rfl, hstart⟩
  · rintro ⟨⟨c, hc, hstart⟩, hall⟩
    refine ⟨?_, fun d hd => by simp [hall d hd]⟩
    rw [Option.mem_def.1 hc]
    exact hstart

instance (t : Text) : Decidable (IsRun t) := decidable_of_iff _ isRun_iff

theorem isAtHead_iff {name params : Text} :
    (! name.isEmpty && name.all isAtNameChar && params.head?.all (! isAtNameChar ·) &&
      params.all (! isDelimiter ·)) = true ↔ IsAtHead name params := by
  simp only [Bool.and_eq_true, List.all_eq_true, and_assoc]
  constructor
  · rintro ⟨hne, hname, hends, hall⟩
    refine ⟨by simpa using hne, hname, ?_, fun c hc => by simpa using hall c hc⟩
    intro c hc
    rw [Option.mem_def.1 hc] at hends
    simpa using hends
  · rintro ⟨hne, hname, hends, hall⟩
    refine ⟨by simpa using hne, hname, ?_, fun c hc => by simp [hall c hc]⟩
    cases hhead : params.head? with
    | none => rfl
    | some c =>
      have hc := hends c hhead
      simp [hc]

instance (name params : Text) : Decidable (IsAtHead name params) := decidable_of_iff _ isAtHead_iff

/-- Whether a run may end in front of a text without an opening brace. -/
def EndsRun (t : Text) : Prop := ∀ c ∈ t.head?, c = ';' ∨ c = '\x7d'

/-- The characters that close a comment. -/
def commentEnd : Text := ['*', '/']

namespace Lexeme

/-- Whether a lexeme is spelt as it has to be, in front of the given text. -/
def Fits : Lexeme → Text → Prop
  | gap c, _ => isGap c = true
  | comment body, _ => ¬ commentEnd <:+: body
  | semicolon, _ => True
  | declaration run, rest => IsRun run ∧ EndsRun rest
  | ruleStart run, _ => IsRun run
  | blockStart name params, _ => IsAtHead name params
  | statement name params, _ => IsAtHead name params
  | openBrace, _ => True
  | closeBrace, _ => True

/-! ## Comments -/

/-- The body of a comment goes up to the first mark that closes it. -/
theorem commentBody?_append {body : Text} (h : ¬ commentEnd <:+: body) (rest : Text) :
    commentBody? (body ++ '*' :: '/' :: rest) = some (body, rest) := by
  induction body with
  | nil => rfl
  | cons c body ih =>
    have hbody : ¬ commentEnd <:+: body := by
      intro hinside
      exact h (hinside.trans (List.suffix_cons c body).isInfix)
    -- the mark is not that of `c` with the character behind it
    have hnot : ∀ t, c = '*' → body ++ '*' :: '/' :: rest = '/' :: t → False := by
      rintro t rfl heq
      cases body with
      | nil => cases heq
      | cons d body =>
        obtain ⟨rfl, _⟩ := List.cons.inj heq
        exact h ⟨[], body, rfl⟩
    rw [List.cons_append, commentBody?.eq_3 _ _ hnot, ih hbody]
    rfl

theorem not_commentEnd_of_commentBody? {t body rest : Text}
    (h : commentBody? t = some (body, rest)) : ¬ commentEnd <:+: body := by
  fun_induction commentBody? t generalizing body with
  | case1 => simp at h
  | case2 r =>
    obtain ⟨rfl, _⟩ := Prod.mk.inj (Option.some.inj h)
    simp [commentEnd]
  | case3 c r hnot ih =>
    obtain ⟨found, hfound, heq⟩ := Option.map_eq_some_iff.1 h
    obtain ⟨rfl, rfl⟩ := Prod.mk.inj heq
    intro hinside
    rcases List.infix_cons_iff.1 hinside with hprefix | hinside
    · -- then the search would have ended at `c`
      obtain ⟨tail, htail⟩ := hprefix
      obtain ⟨hc, hbody⟩ := List.cons.inj htail
      refine hnot (tail ++ '*' :: '/' :: found.2) hc.symm ?_
      rw [eq_of_commentBody? hfound, ← hbody]
      rfl
    · exact ih hfound hinside

/-! ## Runs -/

theorem isDelimiter_of_endsRun {t : Text} (h : EndsRun t) :
    ∀ c ∈ t.head?, isDelimiter c = true := by
  intro c hc
  rcases h c hc with rfl | rfl <;> rfl

theorem runOf_append {t rest : Text} (ht : ∀ c ∈ t, isDelimiter c = false)
    (hrest : ∀ c ∈ rest.head?, isDelimiter c = true) : runOf (t ++ rest) = t := by
  refine Text.takeWhile_append_of_stop ?_ ?_
  · intro c hc
    simp [ht c hc]
  · intro c hc
    simp [hrest c hc]

theorem behindRun_append {t rest : Text} (ht : ∀ c ∈ t, isDelimiter c = false)
    (hrest : ∀ c ∈ rest.head?, isDelimiter c = true) : behindRun (t ++ rest) = rest := by
  refine Text.dropWhile_append_of_stop ?_ ?_
  · intro c hc
    simp [ht c hc]
  · intro c hc
    simp [hrest c hc]

theorem isDelimiter_of_mem_runOf {t : Text} {c : Char} (h : c ∈ runOf t) :
    isDelimiter c = false := by
  simpa using Text.of_mem_takeWhile h

/-- Behind a run stands nothing, or a delimiter. -/
theorem head?_behindRun (t : Text) : ∀ c ∈ (behindRun t).head?, isDelimiter c = true := by
  intro c hc
  simpa using Text.head?_dropWhile (! isDelimiter ·) t c hc

/-- A run is cut off at the first delimiter. -/
theorem run_of_startsRun {c : Char} (h : startsRun c = true) (t : Text) :
    next? (c :: t) = some (run (c :: t)) := by
  obtain ⟨hat, hslash, hdelimiter, hblank⟩ := startsRun_iff.1 h
  have hgap : isGap c = false := by
    by_cases hc : isGap c = true
    · rw [isBlank_of_isGap hc] at hblank
      cases hblank
    · simpa using hc
  unfold next?
  split
  · next heq => cases heq
  · next heq =>
    rw [(List.cons.inj heq).1] at hdelimiter
    cases hdelimiter
  · next heq =>
    rw [(List.cons.inj heq).1] at hdelimiter
    cases hdelimiter
  · next heq =>
    rw [(List.cons.inj heq).1] at hdelimiter
    cases hdelimiter
  · next heq => exact absurd (List.cons.inj heq).1 hslash
  · next heq => exact absurd (List.cons.inj heq).1 hat
  · next heq =>
    obtain ⟨rfl, rfl⟩ := List.cons.inj heq
    rw [hgap, h]
    rfl

theorem exists_cons_of_isRun {t : Text} (h : IsRun t) :
    ∃ c s, t = c :: s ∧ startsRun c = true := by
  obtain ⟨c, hc, hstart⟩ := h.start
  cases t with
  | nil => cases hc
  | cons d s =>
    have hdc : d = c := Option.some.inj hc
    exact ⟨d, s, rfl, hdc ▸ hstart⟩

/-- What is cut off from a text that starts like a run is a run. -/
theorem isRun_runOf {c : Char} (h : startsRun c = true) (t : Text) : IsRun (runOf (c :: t)) where
  start := by
    have hc : isDelimiter c = false := (startsRun_iff.1 h).2.2.1
    refine ⟨c, ?_, h⟩
    simp [runOf, hc]
  no_delimiter := fun _ => isDelimiter_of_mem_runOf

theorem next?_ruleStart {t : Text} (h : IsRun t) (rest : Text) :
    next? (t ++ '\x7b' :: rest) = some (ruleStart t, rest) := by
  have hbrace : ∀ c ∈ ('\x7b' :: rest).head?, isDelimiter c = true := by
    intro c hc
    rw [← Option.some.inj hc]
    rfl
  obtain ⟨c, s, rfl, hc⟩ := exists_cons_of_isRun h
  rw [List.cons_append, run_of_startsRun hc, ← List.cons_append, run,
    behindRun_append h.no_delimiter hbrace, runOf_append h.no_delimiter hbrace]
  rfl

theorem next?_declaration {t rest : Text} (h : IsRun t) (hrest : EndsRun rest) :
    next? (t ++ rest) = some (declaration t, rest) := by
  have hend := isDelimiter_of_endsRun hrest
  obtain ⟨c, s, rfl, hc⟩ := exists_cons_of_isRun h
  rw [List.cons_append, run_of_startsRun hc, ← List.cons_append, run,
    behindRun_append h.no_delimiter hend, runOf_append h.no_delimiter hend]
  split
  · -- an opening brace would make the run a selector list
    next rest' => rcases hrest '\x7b' rfl with hbrace | hbrace <;> cases hbrace
  · rfl

theorem fits_run {c : Char} (h : startsRun c = true) {t rest : Text} {l : Lexeme}
    (hrun : run (c :: t) = (l, rest)) : l.Fits rest := by
  have hend := head?_behindRun (c :: t)
  have his := isRun_runOf h t
  unfold run at hrun
  split at hrun
  · obtain ⟨rfl, _⟩ := Prod.mk.inj hrun
    exact his
  · next hbrace =>
    obtain ⟨rfl, rfl⟩ := Prod.mk.inj hrun
    refine ⟨his, ?_⟩
    intro d hd
    rcases isDelimiter_iff.1 (hend d hd) with rfl | rfl | rfl
    · obtain ⟨s, hs⟩ := List.head?_eq_some_iff.1 hd
      exact absurd hs (hbrace s)
    · exact .inr rfl
    · exact .inl rfl

/-! ## Heads of at-rules -/

/-- The head of an at-rule is cut at the end of its name and at the first
    delimiter. -/
theorem atRule?_append {name params : Text} (h : IsAtHead name params) {d : Char}
    (hd : isDelimiter d = true) (rest : Text) :
    atRule? (name ++ params ++ d :: rest) =
      if d = '\x7b' then some (blockStart name params, rest)
      else if d = ';' then some (statement name params, rest)
      else none := by
  have hall : ∀ c ∈ name ++ params, isDelimiter c = false := by
    intro c hc
    rcases List.mem_append.1 hc with hc | hc
    · exact isDelimiter_of_isAtNameChar (h.name_char c hc)
    · exact h.no_delimiter c hc
  have hend : ∀ c ∈ (d :: rest).head?, isDelimiter c = true := by
    intro c hc
    rw [← Option.some.inj hc]
    exact hd
  unfold atRule?
  rw [runOf_append hall hend, behindRun_append hall hend,
    Text.takeWhile_append_of_stop h.name_char h.name_ends,
    Text.dropWhile_append_of_stop h.name_char h.name_ends]
  have hne : name.isEmpty = false := by simpa using h.ne_nil
  simp only [hne]
  rcases isDelimiter_iff.1 hd with rfl | rfl | rfl <;> rfl

/-- The two parts of a run behind an at-sign. -/
theorem isAtHead_runOf {t : Text} (h : (runOf t).takeWhile isAtNameChar ≠ []) :
    IsAtHead ((runOf t).takeWhile isAtNameChar) ((runOf t).dropWhile isAtNameChar) where
  ne_nil := h
  name_char := fun _ => Text.of_mem_takeWhile
  name_ends := Text.head?_dropWhile _ _
  no_delimiter := fun _ hc => isDelimiter_of_mem_runOf ((List.dropWhile_sublist _).subset hc)

theorem fits_atRule? {t rest : Text} {l : Lexeme} (h : atRule? t = some (l, rest)) :
    l.Fits rest := by
  unfold atRule? at h
  simp only at h
  split at h
  · cases h
  · next hname =>
    have hhead := isAtHead_runOf (t := t) (by simpa using hname)
    split at h
    · obtain ⟨rfl, _⟩ := Prod.mk.inj (Option.some.inj h)
      exact hhead
    · obtain ⟨rfl, _⟩ := Prod.mk.inj (Option.some.inj h)
      exact hhead
    · cases h

/-! ## The start of a text -/

theorem fits_of_next? {t rest : Text} {l : Lexeme} (h : next? t = some (l, rest)) :
    l.Fits rest := by
  unfold next? at h
  split at h
  · cases h
  · obtain ⟨rfl, _⟩ := Prod.mk.inj (Option.some.inj h)
    trivial
  · obtain ⟨rfl, _⟩ := Prod.mk.inj (Option.some.inj h)
    trivial
  · obtain ⟨rfl, _⟩ := Prod.mk.inj (Option.some.inj h)
    trivial
  · obtain ⟨found, hfound, heq⟩ := Option.map_eq_some_iff.1 h
    obtain ⟨rfl, rfl⟩ := Prod.mk.inj heq
    exact not_commentEnd_of_commentBody? hfound
  · exact fits_atRule? h
  · split at h
    · next hgap =>
      obtain ⟨rfl, _⟩ := Prod.mk.inj (Option.some.inj h)
      exact hgap
    · split at h
      · next hstart => exact fits_run hstart (Option.some.inj h)
      · cases h

theorem next?_gap {c : Char} (h : isGap c = true) (rest : Text) :
    next? (c :: rest) = some (gap c, rest) := by
  rcases isGap_iff.1 h with rfl | rfl | rfl | rfl | rfl <;> rfl

theorem next?_written {l : Lexeme} {rest : Text} (h : l.Fits rest) :
    next? (l.written ++ rest) = some (l, rest) := by
  cases l with
  | gap c => exact next?_gap h rest
  | comment body =>
    have hbody := commentBody?_append h rest
    have htext : (comment body).written ++ rest = '/' :: '*' :: (body ++ '*' :: '/' :: rest) := by
      simp [written]
    rw [htext, next?, hbody]
    rfl
  | semicolon => rfl
  | declaration run => exact next?_declaration h.1 h.2
  | ruleStart run =>
    have htext : (ruleStart run).written ++ rest = run ++ '\x7b' :: rest := by simp [written]
    rw [htext, next?_ruleStart h]
  | blockStart name params =>
    have htext : (blockStart name params).written ++ rest =
        '@' :: (name ++ params ++ '\x7b' :: rest) := by simp [written]
    rw [htext, next?, atRule?_append h rfl]
    rfl
  | statement name params =>
    have htext : (statement name params).written ++ rest =
        '@' :: (name ++ params ++ ';' :: rest) := by simp [written]
    rw [htext, next?, atRule?_append h rfl]
    rfl
  | openBrace => rfl
  | closeBrace => rfl

/-- A lexeme is found at the start of a text exactly if the text is its
    spelling with something behind it that it fits. -/
theorem next?_eq_some_iff {t rest : Text} {l : Lexeme} :
    next? t = some (l, rest) ↔ t = l.written ++ rest ∧ l.Fits rest := by
  constructor
  · intro h
    exact ⟨eq_of_next? h, fits_of_next? h⟩
  · rintro ⟨rfl, h⟩
    exact next?_written h

end Lexeme

end StyleSlots
