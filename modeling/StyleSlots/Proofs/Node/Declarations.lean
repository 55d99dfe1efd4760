import StyleSlots.Node.Printer
import StyleSlots.Proofs.Grammar.Reading

/-! # Declarations are read back

    - **Importance**: a value is important exactly if it ends in an
      exclamation mark and the word, with any blanks before, between and
      behind them. One mark is taken off; the value in front of it may end
      in another one.
    - **Plain declarations**: what a declaration that has been read looks
      like: a trimmed property without a colon and a trimmed value, which
      ends in a mark only if one has been taken off it.
    - **Main statements**: `plain_of_ofRun?`, a run is read as a plain
      declaration; `ofRun?_css`, the text of a plain declaration is a run
      that is read as this declaration. -/

namespace StyleSlots

namespace Declaration

/-! ## Importance -/

/-- A letter of the word of the mark is no blank, in either case. -/
theorem isBlank_of_isLetter {letter c : Char} (hletter : isBlank letter = false)
    (h : isLetter letter c = true) : isBlank c = false := by
  by_contra hblank
  have hc : isBlank c = true := by simpa using hblank
  -- a blank is not in the range of the letters that have a lower case
  have hlower : c.toLower = c := by
    have hrange : ¬ (65 ≤ c.toNat ∧ c.toNat ≤ 90) := by
      simp [isBlank, inRanges, blankRanges] at hc
      omega
    unfold Char.toLower
    rw [dif_neg]
    intro hupper
    exact hrange ⟨UInt32.le_iff_toNat_le.1 hupper.1, UInt32.le_iff_toNat_le.1 hupper.2⟩
  simp only [isLetter, Bool.or_eq_true, Bool.and_eq_true, decide_eq_true_eq] at h
  rcases h with h | ⟨_, rfl | rfl⟩
  · rw [hlower] at h
    rw [h, hletter] at hc
    cases hc
  · cases hc
  · cases hc

theorem length_of_isImportantWord {t : Text} (h : isImportantWord t = true) :
    t.length = importantWord.length := by
  simp only [isImportantWord, Bool.and_eq_true, decide_eq_true_eq] at h
  exact h.1

theorem isBlank_of_mem_isImportantWord {t : Text} (h : isImportantWord t = true) :
    ∀ c ∈ t, isBlank c = false := by
  intro c hc
  have hlength := length_of_isImportantWord h
  -- as many characters as letters, so each of them stands beside its letter
  simp only [isImportantWord, Bool.and_eq_true, List.all_eq_true] at h
  have hzip : c ∈ (importantWord.zip t).map Prod.snd := by
    rw [List.map_snd_zip (by omega)]
    exact hc
  obtain ⟨⟨letter, d⟩, hmem, rfl⟩ := List.mem_map.1 hzip
  have hall : importantWord.all (! isBlank ·) = true := rfl
  have hletter := List.all_eq_true.1 hall letter (List.of_mem_zip hmem).1
  exact isBlank_of_isLetter (by simpa using hletter) (h.2 _ hmem)

/-- The mark for importance, with blanks before and behind its word. -/
structure IsMark (gap word behind : Text) : Prop where
  word   : isImportantWord word = true
  gap    : ∀ c ∈ gap, isBlank c = true
  behind : ∀ c ∈ behind, isBlank c = true

theorem unmarked?_mark {gap word behind : Text} (h : IsMark gap word behind) (t : Text) :
    unmarked? (t ++ '!' :: gap ++ word ++ behind) = some t := by
  have hlength := length_of_isImportantWord h.word
  have hword : word ≠ [] := by
    rintro rfl
    cases hlength
  have htrim : Text.trimEnd (t ++ '!' :: gap ++ word ++ behind) = t ++ '!' :: gap ++ word := by
    refine Text.trimEnd_append_of_blank ?_ h.behind
    intro c hc
    rw [List.getLast?_append_of_ne_nil _ hword] at hc
    exact isBlank_of_mem_isImportantWord h.word c (List.mem_of_getLast? hc)
  have hplace : (t ++ '!' :: gap ++ word).length - importantWord.length =
      (t ++ '!' :: gap).length := by
    rw [List.length_append, hlength, Nat.add_sub_cancel]
  have hbefore : Text.trimEnd (t ++ '!' :: gap) = t ++ ['!'] := by
    have htext : t ++ '!' :: gap = t ++ ['!'] ++ gap := by simp
    rw [htext]
    refine Text.trimEnd_append_of_blank ?_ h.gap
    intro c hc
    obtain rfl : '!' = c := by simpa using hc
    rfl
  -- the place counted from the end is where the word starts
  unfold unmarked?
  simp only [htrim, hplace, List.take_left, List.drop_left, hbefore]
  simp [h.word]

/-- A mark is taken off a value exactly if the value ends in one. -/
theorem unmarked?_eq_some_iff {value t : Text} : unmarked? value = some t ↔
    ∃ gap word behind, IsMark gap word behind ∧ value = t ++ '!' :: gap ++ word ++ behind := by
  constructor
  · intro h
    obtain ⟨behind, hvalue, hbehind⟩ := Text.exists_trimEnd value
    unfold unmarked? at h
    generalize hplace : (Text.trimEnd value).length - importantWord.length = place at h
    obtain ⟨gap, hbefore, hgap⟩ := Text.exists_trimEnd ((Text.trimEnd value).take place)
    simp only [hplace] at h
    split at h
    · next hmark =>
      obtain ⟨hword, hlast⟩ : isImportantWord ((Text.trimEnd value).drop place) = true ∧
          (Text.trimEnd ((Text.trimEnd value).take place)).getLast? = some '!' := by
        simpa using hmark
      obtain rfl := Option.some.inj h
      refine ⟨gap, (Text.trimEnd value).drop place, behind, ⟨hword, hgap, hbehind⟩, ?_⟩
      have hend := List.dropLast_append_getLast? '!' hlast
      generalize Text.trimEnd ((Text.trimEnd value).take place) = before at *
      calc value = Text.trimEnd value ++ behind := hvalue
        _ = (Text.trimEnd value).take place ++ (Text.trimEnd value).drop place ++ behind := by
          rw [List.take_append_drop]
        _ = before.dropLast ++ ['!'] ++ gap ++ (Text.trimEnd value).drop place ++ behind := by
          rw [hend, ← hbefore]
        _ = _ := by simp
    · cases h
  · rintro ⟨gap, word, behind, hmark, rfl⟩
    exact unmarked?_mark hmark t

/-- Trimming uncovers no mark. -/
theorem unmarked?_trim {value : Text} (h : unmarked? value = none) :
    unmarked? value.trim = none := by
  cases hmarked : unmarked? value.trim with
  | none => rfl
  | some t =>
    obtain ⟨before, end', hvalue, _, hend⟩ := Text.exists_trim value
    obtain ⟨gap, word, behind, hmark, htrim⟩ := unmarked?_eq_some_iff.1 hmarked
    -- the blanks that were trimmed would stand behind the mark
    have hmark' : IsMark gap word (behind ++ end') := by
      refine ⟨hmark.word, hmark.gap, ?_⟩
      intro c hc
      exact (List.mem_append.1 hc).elim (hmark.behind c) (hend c)
    have hsome : unmarked? value = some (before ++ t) := by
      refine unmarked?_eq_some_iff.2 ⟨gap, word, behind ++ end', hmark', ?_⟩
      calc value = before ++ value.trim ++ end' := hvalue
        _ = _ := by rw [htrim]; simp
    rw [h] at hsome
    cases hsome

/-- The mark that is written is read. -/
theorem unmarked?_important (value : Text) :
    unmarked? (value ++ " !important".toList) = some (value ++ [' ']) := by
  have hmark : IsMark [] importantWord [] := ⟨by decide, by simp, by simp⟩
  have htext : value ++ " !important".toList =
      value ++ [' '] ++ '!' :: [] ++ importantWord ++ [] := by
    have hword : " !important".toList = ' ' :: '!' :: importantWord := by decide
    rw [hword]
    simp
  rw [htext]
  exact unmarked?_mark hmark (value ++ [' '])

/-! ## Plain declarations -/

/-- A declaration as it is read. -/
structure Plain (d : Declaration) : Prop where
  start         : ∃ c ∈ d.prop.head?, startsRun c = true
  prop_trimmed  : Text.IsTrimmed d.prop
  value_trimmed : Text.IsTrimmed d.value
  no_colon      : ':' ∉ d.prop
  no_delimiter  : ∀ c ∈ d.prop ++ d.value, isDelimiter c = false
  /-- A value may end in a mark only behind another one. -/
  unmarked      : d.important = false → unmarked? d.value = none

/-- The declaration that is read, with its property and value untrimmed. -/
theorem ofRun?_append {prop value : Text} (hcolon : ':' ∉ prop) (source : Option Position) :
    ofRun? (prop ++ ':' :: value) source =
      if prop.trim.isEmpty then none
      else some
        ⟨prop.trim, ((unmarked? value).getD value).trim, (unmarked? value).isSome, source⟩ := by
  have hall : ∀ c ∈ prop, decide (c ≠ ':') = true := by
    intro c hc
    have hne : c ≠ ':' := by
      rintro rfl
      exact hcolon hc
    simpa using hne
  have hstop : ∀ c ∈ (':' :: value).head?, decide (c ≠ ':') = false := by simp
  unfold ofRun?
  rw [Text.takeWhile_append_of_stop hall hstop, Text.dropWhile_append_of_stop hall hstop]
  by_cases hprop : prop.trim.isEmpty = true
  · simp [hprop]
  · cases hvalue : unmarked? value <;> simp [hprop, hvalue]

/-- The position is handed on and not looked at. -/
theorem ofRun?_eq_map (run : Text) (source : Option Position) :
    ofRun? run source = (ofRun? run none).map fun d => { d with source } := by
  unfold ofRun?
  cases run.dropWhile (· ≠ ':') with
  | nil => rfl
  | cons _ value =>
    dsimp only
    split
    · rfl
    · cases unmarked? value <;> rfl

/-- What is read is a text up to its first colon, and the text behind it. -/
theorem exists_append_of_ofRun? {run : Text} {source : Option Position} {d : Declaration}
    (h : ofRun? run source = some d) :
    ∃ prop value, ':' ∉ prop ∧ run = prop ++ ':' :: value := by
  have hrun : run = run.takeWhile (· ≠ ':') ++ run.dropWhile (· ≠ ':') :=
    List.takeWhile_append_dropWhile.symm
  have hcolon : ':' ∉ run.takeWhile (· ≠ ':') := by
    intro hmem
    have hne := Text.of_mem_takeWhile hmem
    simp at hne
  cases hbehind : run.dropWhile (· ≠ ':') with
  | nil =>
    unfold ofRun? at h
    rw [hbehind] at h
    cases h
  | cons c value =>
    have hstop := Text.head?_dropWhile (· ≠ ':') run c (by rw [hbehind]; rfl)
    obtain rfl : c = ':' := by simpa using hstop
    rw [hbehind] at hrun
    exact ⟨_, value, hcolon, hrun⟩

theorem source_of_ofRun? {run : Text} {source : Option Position} {d : Declaration}
    (h : ofRun? run source = some d) : d.source = source := by
  rw [ofRun?_eq_map] at h
  obtain ⟨_, -, rfl⟩ := Option.map_eq_some_iff.1 h
  rfl

/-- The property of a declaration stands at the start of its run. -/
theorem prop_prefix_of_ofRun? {run : Text} (hrun : IsRun run)
    {source : Option Position} {d : Declaration} (h : ofRun? run source = some d) :
    d.prop ≠ [] ∧ d.prop <+: run := by
  obtain ⟨prop, value, hcolon, rfl⟩ := exists_append_of_ofRun? h
  rw [ofRun?_append hcolon] at h
  split at h
  · cases h
  · next hprop =>
    obtain rfl := Option.some.inj h
    have hne : prop.trim ≠ [] := fun hnil => hprop (List.isEmpty_iff.2 hnil)
    refine ⟨hne, ?_⟩
    cases prop with
    | nil => exact absurd rfl hne
    | cons c prop =>
      obtain ⟨d, hd, hstart⟩ := hrun.start
      obtain rfl : c = d := Option.some.inj hd
      have htrim := Text.trim_cons_prefix (startsRun_iff.1 hstart).2.2.2 prop
      exact htrim.trans (List.prefix_append _ _)

/-- A run is read as a plain declaration. -/
theorem plain_of_ofRun? {run : Text} (hrun : IsRun run) {source : Option Position}
    {d : Declaration} (h : ofRun? run source = some d) : d.Plain := by
  obtain ⟨hne, behind, hprop⟩ := prop_prefix_of_ofRun? hrun h
  obtain ⟨prop, value, hcolon, rfl⟩ := exists_append_of_ofRun? h
  rw [ofRun?_append hcolon] at h
  split at h
  · cases h
  · -- taking off a mark leaves characters of the value only
    have hmem : ∀ c ∈ (unmarked? value).getD value, c ∈ value := by
      cases hvalue : unmarked? value with
      | none =>
        intro c hc
        exact hc
      | some t =>
        obtain ⟨gap, word, behind, _, rfl⟩ := unmarked?_eq_some_iff.1 hvalue
        intro c hc
        have hct : c ∈ t := hc
        simp [hct]
    obtain rfl := Option.some.inj h
    refine ⟨?_, Text.isTrimmed_trim _, Text.isTrimmed_trim _, ?_, ?_, ?_⟩
    · -- the property starts with the first character of the run
      obtain ⟨c, hc, hstart⟩ := hrun.start
      rw [← hprop, List.head?_append_of_ne_nil _ hne] at hc
      exact ⟨c, hc, hstart⟩
    · intro hmem'
      exact hcolon (Text.mem_of_mem_trim hmem')
    · intro c hc
      refine hrun.no_delimiter c ?_
      rcases List.mem_append.1 hc with hc | hc
      · exact List.mem_append_left _ (Text.mem_of_mem_trim hc)
      · refine List.mem_append_right _ (List.mem_cons_of_mem _ ?_)
        exact hmem c (Text.mem_of_mem_trim hc)
    · intro himportant
      have hnone : unmarked? value = none := by simpa using himportant
      show unmarked? ((unmarked? value).getD value).trim = none
      rw [hnone]
      exact unmarked?_trim hnone

/-! ## Printing -/

theorem isDelimiter_of_mem_css {d : Declaration} (h : d.Plain) :
    ∀ c ∈ d.css, isDelimiter c = false := by
  have hmark : " !important".toList.all (! isDelimiter ·) = true := rfl
  intro c hc
  rcases List.mem_append.1 hc with hc | hc
  · rcases List.mem_append.1 hc with hc | hc
    · exact h.no_delimiter c (List.mem_append_left _ hc)
    · rcases List.mem_cons.1 hc with rfl | hc
      · rfl
      · exact h.no_delimiter c (List.mem_append_right _ hc)
  · split at hc
    · simpa using List.all_eq_true.1 hmark c hc
    · cases hc

theorem isRun_css {d : Declaration} (h : d.Plain) : IsRun d.css where
  start := by
    obtain ⟨c, hc, hstart⟩ := h.start
    refine ⟨c, ?_, hstart⟩
    obtain ⟨s, hs⟩ := List.head?_eq_some_iff.1 hc
    rw [css, hs]
    rfl
  no_delimiter := isDelimiter_of_mem_css h

/-- The text of a plain declaration is read as this declaration. -/
theorem ofRun?_css {d : Declaration} (h : d.Plain) (source : Option Position) :
    ofRun? d.css source = some { d with source } := by
  have hprop : d.prop.trim = d.prop := h.prop_trimmed.trim_eq
  have hvalue : d.value.trim = d.value := h.value_trimmed.trim_eq
  have hne : d.prop.isEmpty = false := by
    obtain ⟨c, hc, _⟩ := h.start
    obtain ⟨s, hs⟩ := List.head?_eq_some_iff.1 hc
    rw [hs]
    rfl
  have hcss : d.css =
      d.prop ++ ':' :: (d.value ++ if d.important then " !important".toList else []) := by
    rw [css, List.append_assoc]
    rfl
  have hfalse : ¬ false = true := by simp
  rw [hcss, ofRun?_append h.no_colon, hprop, hne, if_neg hfalse]
  cases himportant : d.important with
  | true =>
    have hspace : (d.value ++ [' ']).trim = d.value := by
      have hblank : ∀ c ∈ [' '], isBlank c = true := by simpa using Text.isBlank_space
      have heq : Text.trim ([] ++ d.value ++ [' ']) = d.value :=
        Text.trim_of_isTrimmed h.value_trimmed (by simp) hblank
      simpa using heq
    -- the space in front of the mark is trimmed with the value
    have hmarked := unmarked?_important d.value
    rw [if_pos rfl, hmarked]
    show some (⟨d.prop, (d.value ++ [' ']).trim, true, source⟩ : Declaration) = _
    rw [hspace]
  | false =>
    have hunmarked := h.unmarked himportant
    rw [if_neg hfalse, List.append_nil, hunmarked]
    show some (⟨d.prop, d.value.trim, false, source⟩ : Declaration) = _
    rw [hvalue]

end Declaration

end StyleSlots
