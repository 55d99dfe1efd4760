import StyleSlots.Proofs.Text.Trimmed

/-! # Quoted strings

    A quotation mark opens a string, which the next mark of the same kind
    closes. Inside a string nothing else counts, a mark of the other kind
    and a backslash included; one that is not closed goes on to the end.

    - **Segments**: a text cut where a string opens and where it closes.
      Every segment lies inside or outside of quotes, and nothing is lost
      between them.
    - **Replacing**: to put other text in the place of characters moves no
      cut, as long as no mark is replaced or put in.
    - **Squeezing**: a text whose quoted strings have no runs of blanks is
      the same whether or not blanks are squeezed inside of them. -/

namespace StyleSlots

namespace Text

/-! ## Segments -/

/-- A quotation mark. -/
def isQuote (c : Char) : Bool := c = '\'' || c = '"'

/-- A stretch of a text inside or outside of quotes. -/
structure Segment where
  /-- Whether it lies inside. Then it has its marks at its ends. -/
  quoted : Bool
  text   : Text
  deriving DecidableEq, Repr

namespace Segment

/-- The segments of a text with `s` in front, which belongs to the first one. -/
def prepend (s : Text) : List Segment → List Segment
  | [] => []
  | first :: more => { first with text := s ++ first.text } :: more

/-- A segment with its characters replaced. -/
def replace (f : Char → Text) (s : Segment) : Segment := { s with text := s.text.flatMap f }

end Segment

open Segment

/-- The segments of a text that starts outside of quotes, or in a string that
    `mark` has opened. -/
def segments (mark : Option Char) : Text → List Segment
  | [] => [⟨mark.isSome, []⟩]
  | c :: t =>
    match mark with
    | none =>
      if isQuote c then ⟨false, []⟩ :: prepend [c] (segments (some c) t)
      else prepend [c] (segments none t)
    | some m =>
      if c = m then ⟨true, [c]⟩ :: segments none t
      else prepend [c] (segments (some m) t)

/-- The quoted strings of a text, with their marks. -/
def quotedStrings (t : Text) : List Text :=
  ((segments none t).filter Segment.quoted).map Segment.text

/-- Whether `w` stands in a text, at some place outside of quotes. -/
def OccursUnquoted (w t : Text) : Prop := ∃ s ∈ segments none t, s.quoted = false ∧ w <:+: s.text

/-- Whether what has opened a string, if there is one, is a quotation mark. -/
def IsOpening (mark : Option Char) : Prop := ∀ m ∈ mark, isQuote m = true

theorem isOpening_none : IsOpening none := by
  intro m hm
  cases hm

theorem isOpening_some {c : Char} (h : isQuote c = true) : IsOpening (some c) := by
  intro m hm
  obtain rfl : c = m := Option.some.inj hm
  exact h

theorem isBlank_of_isQuote {c : Char} (h : isQuote c = true) : isBlank c = false := by
  simp only [isQuote, Bool.or_eq_true, decide_eq_true_eq] at h
  rcases h with rfl | rfl <;> rfl

variable {mark : Option Char} {s t : Text} {c : Char}

theorem segments_none_of_isQuote (hc : isQuote c = true) (t : Text) :
    segments none (c :: t) = ⟨false, []⟩ :: prepend [c] (segments (some c) t) := by
  rw [segments, if_pos hc]

theorem segments_some_self (m : Char) (t : Text) :
    segments (some m) (m :: t) = ⟨true, [m]⟩ :: segments none t := by
  rw [segments, if_pos rfl]

/-- A character that neither opens nor closes a string belongs to the segment
    that the rest starts with. -/
theorem segments_cons (hnone : mark = none → isQuote c = false) (hsome : ∀ m ∈ mark, c ≠ m)
    (t : Text) : segments mark (c :: t) = prepend [c] (segments mark t) := by
  cases mark with
  | none => rw [segments, if_neg (by simp [hnone rfl])]
  | some m => rw [segments, if_neg (hsome m rfl)]

/-- What happens at the first character of a text. -/
theorem segments_cases (mark : Option Char) (c : Char) :
    (mark = none ∧ isQuote c = true) ∨ mark = some c ∨
      ((mark = none → isQuote c = false) ∧ ∀ m ∈ mark, c ≠ m) := by
  cases mark with
  | none =>
    cases hc : isQuote c with
    | true => exact .inl ⟨rfl, rfl⟩
    | false => exact .inr (.inr ⟨fun _ => rfl, by simp⟩)
  | some m =>
    by_cases hm : c = m
    · exact .inr (.inl (by rw [hm]))
    · refine .inr (.inr ⟨by simp, ?_⟩)
      intro m' hm'
      obtain rfl : m = m' := Option.some.inj hm'
      exact hm

theorem exists_segments (mark : Option Char) (t : Text) :
    ∃ first more, segments mark t = first :: more ∧ first.quoted = mark.isSome := by
  induction t generalizing mark with
  | nil => exact ⟨_, _, rfl, rfl⟩
  | cons c t ih =>
    rcases segments_cases mark c with ⟨rfl, hc⟩ | rfl | ⟨hnone, hsome⟩
    · exact ⟨_, _, segments_none_of_isQuote hc t, rfl⟩
    · exact ⟨_, _, segments_some_self c t, rfl⟩
    · obtain ⟨first, more, hsegments, hquoted⟩ := ih mark
      rw [segments_cons hnone hsome, hsegments]
      exact ⟨_, _, rfl, hquoted⟩

theorem flatMap_text_prepend {segs : List Segment} (h : segs ≠ []) (s : Text) :
    (prepend s segs).flatMap Segment.text = s ++ segs.flatMap Segment.text := by
  cases segs with
  | nil => exact absurd rfl h
  | cons first more => simp [prepend]

theorem segments_ne_nil (mark : Option Char) (t : Text) : segments mark t ≠ [] := by
  obtain ⟨first, more, hsegments, -⟩ := exists_segments mark t
  simp [hsegments]

/-- Nothing is lost between segments. -/
theorem flatMap_text_segments (mark : Option Char) (t : Text) :
    (segments mark t).flatMap Segment.text = t := by
  induction t generalizing mark with
  | nil => rfl
  | cons c t ih =>
    rcases segments_cases mark c with ⟨rfl, hc⟩ | rfl | ⟨hnone, hsome⟩
    · rw [segments_none_of_isQuote hc, List.flatMap_cons,
        flatMap_text_prepend (segments_ne_nil _ _), ih]
      rfl
    · rw [segments_some_self, List.flatMap_cons, ih]
      rfl
    · rw [segments_cons hnone hsome, flatMap_text_prepend (segments_ne_nil _ _), ih]
      rfl

theorem exists_segment_of_mem {c : Char} (h : c ∈ t) (mark : Option Char) :
    ∃ s ∈ segments mark t, c ∈ s.text := by
  rw [← flatMap_text_segments mark t] at h
  exact List.mem_flatMap.1 h

theorem OccursUnquoted.subset {w : Text} (h : OccursUnquoted w t) : w ⊆ t := by
  obtain ⟨s, hs, -, hin⟩ := h
  intro c hc
  rw [← flatMap_text_segments none t]
  exact List.mem_flatMap.2 ⟨s, hs, hin.subset hc⟩

theorem mem_quotedStrings {q : Text} :
    q ∈ quotedStrings t ↔ ∃ s ∈ segments none t, s.quoted = true ∧ s.text = q := by
  simp [quotedStrings, and_assoc]

theorem infix_of_mem_quotedStrings {q : Text} (h : q ∈ quotedStrings t) : q <:+: t := by
  obtain ⟨s, hs, -, rfl⟩ := mem_quotedStrings.1 h
  obtain ⟨before, behind, hsplit⟩ := List.append_of_mem hs
  refine ⟨before.flatMap Segment.text, behind.flatMap Segment.text, ?_⟩
  rw [← flatMap_text_segments none t, hsplit, List.flatMap_append, List.flatMap_cons,
    List.append_assoc]

/-! ## Replacing characters -/

theorem prepend_prepend (s t : Text) (segs : List Segment) :
    prepend s (prepend t segs) = prepend (s ++ t) segs := by
  cases segs with
  | nil => rfl
  | cons first more => simp [prepend]

theorem prepend_nil (segs : List Segment) : prepend [] segs = segs := by
  cases segs <;> rfl

/-- Text without quotation marks belongs to the segment behind it. -/
theorem segments_append (hmark : IsOpening mark) (hs : ∀ c ∈ s, isQuote c = false) (t : Text) :
    segments mark (s ++ t) = prepend s (segments mark t) := by
  induction s with
  | nil => rw [List.nil_append, prepend_nil]
  | cons c s ih =>
    have hc : isQuote c = false := hs c (List.mem_cons_self ..)
    have hne : ∀ m ∈ mark, c ≠ m := by
      rintro m hm rfl
      rw [hmark c hm] at hc
      cases hc
    rw [List.cons_append, segments_cons (fun _ => hc) hne,
      ih fun d hd => hs d (List.mem_cons_of_mem _ hd), prepend_prepend]
    rfl

theorem map_replace_prepend (f : Char → Text) (s : Text) (segs : List Segment) :
    (prepend s segs).map (replace f) = prepend (s.flatMap f) (segs.map (replace f)) := by
  cases segs with
  | nil => rfl
  | cons first more => simp [prepend, replace]

/-- Whether `f` leaves quotation marks alone and puts none in. -/
structure KeepsQuotes (f : Char → Text) : Prop where
  quote : ∀ c, isQuote c = true → f c = [c]
  other : ∀ c, isQuote c = false → ∀ d ∈ f c, isQuote d = false

theorem KeepsQuotes.append_of_isQuote {f : Char → Text} (hf : KeepsQuotes f)
    (hc : isQuote c = true) (t : Text) : f c ++ t = c :: t := by
  rw [hf.quote c hc]
  rfl

/-- To replace other characters than quotation marks moves no cut. -/
theorem segments_flatMap {f : Char → Text} (hf : KeepsQuotes f) (hmark : IsOpening mark)
    (t : Text) :
    segments mark (t.flatMap f) = (segments mark t).map (replace f) := by
  induction t generalizing mark with
  | nil => rfl
  | cons c t ih =>
    rw [List.flatMap_cons]
    rcases segments_cases mark c with ⟨rfl, hc⟩ | rfl | ⟨hnone, hsome⟩
    · rw [hf.append_of_isQuote hc, segments_none_of_isQuote hc, segments_none_of_isQuote hc,
        ih (isOpening_some hc), List.map_cons, map_replace_prepend, List.flatMap_singleton,
        hf.quote c hc]
      rfl
    · have hc := hmark c rfl
      rw [hf.append_of_isQuote hc, segments_some_self, segments_some_self, ih isOpening_none,
        List.map_cons, replace, List.flatMap_singleton, hf.quote c hc]
    · rw [segments_cons hnone hsome, map_replace_prepend, List.flatMap_singleton, ← ih hmark]
      cases hc : isQuote c with
      | true =>
        -- a mark of the other kind inside of a string
        rw [hf.append_of_isQuote hc, segments_cons hnone hsome, hf.quote c hc]
      | false => exact segments_append hmark (hf.other c hc) _

/-! ## Squeezing blanks -/

/-- The text with every run of blanks outside of quotes replaced by one
    space. -/
def squeezeUnquoted (t : Text) : Text :=
  (segments none t).flatMap fun s => if s.quoted then s.text else s.text.squeeze

/-- What a character is squeezed to depends on the next one only. -/
theorem squeeze_cons (c : Char) (t : Text) :
    squeeze (c :: t) =
      (if isBlank c then if t.head?.any isBlank then [] else [' '] else [c]) ++ squeeze t := by
  rw [squeeze]
  by_cases hc : isBlank c = true <;> by_cases ht : t.head?.any isBlank = true <;> simp [hc, ht]

/-- The first segment starts with a blank if the text does. -/
theorem head?_any_isBlank_of_segments (hmark : IsOpening mark) {first : Segment}
    {more : List Segment} (h : segments mark t = first :: more) :
    first.text.head?.any isBlank = t.head?.any isBlank := by
  cases t with
  | nil =>
    obtain rfl := (List.cons.inj h).1
    rfl
  | cons c t =>
    rcases segments_cases mark c with ⟨rfl, hc⟩ | rfl | ⟨hnone, hsome⟩
    · -- the text starts with a mark, which is no blank
      rw [segments_none_of_isQuote hc] at h
      obtain rfl := (List.cons.inj h).1
      simp [isBlank_of_isQuote hc]
    · rw [segments_some_self] at h
      obtain rfl := (List.cons.inj h).1
      rfl
    · obtain ⟨second, others, hsegments, -⟩ := exists_segments mark t
      rw [segments_cons hnone hsome, hsegments] at h
      obtain rfl := (List.cons.inj h).1
      rfl

theorem flatMap_squeeze_prepend (hmark : IsOpening mark) (c : Char) (t : Text) :
    (prepend [c] (segments mark t)).flatMap (fun s => s.text.squeeze) =
      (if isBlank c then if t.head?.any isBlank then [] else [' '] else [c]) ++
        (segments mark t).flatMap fun s => s.text.squeeze := by
  obtain ⟨first, more, hsegments, -⟩ := exists_segments mark t
  rw [← head?_any_isBlank_of_segments hmark hsegments, hsegments, prepend, List.flatMap_cons,
    List.flatMap_cons, List.singleton_append, squeeze_cons, List.append_assoc]

/-- A run of blanks does not go on behind the end of a segment, so segments
    may be squeezed one by one. -/
theorem flatMap_squeeze_segments (hmark : IsOpening mark) (t : Text) :
    (segments mark t).flatMap (fun s => s.text.squeeze) = t.squeeze := by
  induction t generalizing mark with
  | nil => rfl
  | cons c t ih =>
    rcases segments_cases mark c with ⟨rfl, hc⟩ | rfl | ⟨hnone, hsome⟩
    · have hopen := isOpening_some hc
      rw [segments_none_of_isQuote hc, List.flatMap_cons, flatMap_squeeze_prepend hopen, ih hopen,
        squeeze_cons]
      rfl
    · have hc := isBlank_of_isQuote (hmark c rfl)
      rw [segments_some_self, List.flatMap_cons, ih isOpening_none, squeeze_cons]
      simp [squeeze, hc]
    · rw [segments_cons hnone hsome, flatMap_squeeze_prepend hmark, ih hmark, squeeze_cons]

/-- Without runs of blanks inside of quotes there is nothing else to squeeze. -/
theorem squeezeUnquoted_eq_squeeze (h : ∀ q ∈ quotedStrings t, q.squeeze = q) :
    squeezeUnquoted t = squeeze t := by
  rw [← flatMap_squeeze_segments isOpening_none t, squeezeUnquoted]
  refine List.flatMap_congr ?_
  intro s hs
  cases hquoted : s.quoted with
  | false => rfl
  | true =>
    exact (h s.text (mem_quotedStrings.2 ⟨s, hs, hquoted, rfl⟩)).symm

end Text

end StyleSlots
