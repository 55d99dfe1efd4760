import StyleSlots.Node.Basic
import StyleSlots.Proofs.Selector.Scoping

/-! # Selector lists are split and joined without loss

    What a splitter counts as it goes is said here without it, by what a text
    has in it up to some place.

    - **Quotes**: a text is closed in this respect if it ends in a segment
      outside of quotes.
    - **Brackets**: one that closes nothing has no effect, so a bracket is open
      behind a text if and only if, from somewhere on, more brackets open
      than close.
    - **Commas**: one separates selectors if the text in front of it is closed.
    - **Main statement**: `split_joined`, the selectors of any text are trimmed
      and have no such comma, and are split again as they are joined; and so
      is every list of such selectors that are closed. -/

namespace StyleSlots

namespace Selector

open Text

/-! ## Closed texts -/

/-- An opening bracket. -/
def isOpening (c : Char) : Bool := c = '(' || c = '['

/-- A closing bracket. -/
def isClosing (c : Char) : Bool := c = ')' || c = ']'

/-- The characters outside of quotes, for a text that starts where `mark` has
    opened a string, if it is there. -/
def unquoted (mark : Option Char) (t : Text) : Text :=
  ((segments mark t).filter (! ·.quoted)).flatMap Segment.text

/-- Whether neither a quote nor a bracket is open behind a text. -/
structure Closed (t : Text) : Prop where
  quotes   : (segments none t).getLast?.map Segment.quoted = some false
  brackets : ∀ u, u <:+ unquoted none t → u.countP isOpening ≤ u.countP isClosing

/-- What a selector of a list is like. -/
structure IsEntry (s : Text) : Prop where
  ne_nil  : s ≠ []
  trimmed : IsTrimmed s
  /-- Every comma stands inside of quotes or brackets. -/
  comma   : ∀ before behind, s = before ++ ',' :: behind → ¬ Closed before

/-! ## Characters outside of quotes -/

section Unquoted

variable {mark : Option Char} {c m : Char}

theorem unquoted_prepend {segs : List Segment} {first : Segment} {more : List Segment}
    (h : segs = first :: more) (s : Text) :
    ((Segment.prepend s segs).filter (! ·.quoted)).flatMap Segment.text =
      (if first.quoted then [] else s) ++ (segs.filter (! ·.quoted)).flatMap Segment.text := by
  subst h
  cases hquoted : first.quoted <;> simp [Segment.prepend, hquoted]

/-- A mark that opens a string is inside of it. -/
theorem unquoted_of_isQuote (hc : isQuote c = true) (t : Text) :
    unquoted none (c :: t) = unquoted (some c) t := by
  obtain ⟨first, more, hsegments, hquoted⟩ := exists_segments (some c) t
  rw [unquoted, segments_none_of_isQuote hc, List.filter_cons_of_pos rfl, List.flatMap_cons,
    unquoted_prepend hsegments, hquoted]
  rfl

/-- So is a mark that closes it. -/
theorem unquoted_some_self (m : Char) (t : Text) :
    unquoted (some m) (m :: t) = unquoted none t := by
  rw [unquoted, segments_some_self]
  rfl

theorem unquoted_cons (hnone : mark = none → isQuote c = false) (hsome : ∀ m ∈ mark, c ≠ m)
    (t : Text) : unquoted mark (c :: t) = (if mark.isSome then [] else [c]) ++ unquoted mark t := by
  obtain ⟨first, more, hsegments, hquoted⟩ := exists_segments mark t
  rw [unquoted, segments_cons hnone hsome, unquoted_prepend hsegments, hquoted]
  rfl

end Unquoted

/-! ## Counting brackets -/

/-- The number of open brackets behind a text without quotes, if there are `d`
    in front of it. -/
def level (d : Nat) (u : Text) : Nat :=
  u.foldl (fun d c => if isOpening c then d + 1 else if isClosing c then d - 1 else d) d

theorem isClosing_of_isOpening {c : Char} (h : isOpening c = true) : isClosing c = false := by
  simp only [isOpening, Bool.or_eq_true, decide_eq_true_eq] at h
  rcases h with rfl | rfl <;> rfl

/-- No bracket is open if and only if all that were open have been closed, and
    all those that have opened since, from wherever one starts to count. -/
theorem level_eq_zero_iff {d : Nat} {u : Text} : level d u = 0 ↔
    d + u.countP isOpening ≤ u.countP isClosing ∧
      ∀ v, v <:+ u → v.countP isOpening ≤ v.countP isClosing := by
  induction u generalizing d with
  | nil => simp [level]
  | cons c u ih =>
    have hstep : level d (c :: u) =
        level (if isOpening c then d + 1 else if isClosing c then d - 1 else d) u := rfl
    rw [hstep, ih]
    simp only [List.suffix_cons_iff, forall_eq_or_imp, List.countP_cons]
    rw [← and_assoc]
    refine and_congr_left fun hrest => ?_
    -- a closing bracket without effect is one more than have opened behind it
    have hu := hrest u List.suffix_rfl
    cases hopen : isOpening c with
    | true =>
      simp only [isClosing_of_isOpening hopen, if_true, Bool.false_eq_true, if_false]
      omega
    | false =>
      cases hclose : isClosing c with
      | true =>
        simp only [if_true, Bool.false_eq_true, if_false]
        omega
      | false =>
        simp only [Bool.false_eq_true, if_false]
        omega

/-- The depth of the splitter is the number of open brackets among the
    characters outside of quotes. -/
theorem depth_behind (n : Nesting) (t : Text) :
    (n.behind t).depth = level n.depth (unquoted n.quote t) := by
  induction t generalizing n with
  | nil => obtain ⟨_ | _, depth⟩ := n <;> rfl
  | cons c t ih =>
    show ((n.after c).behind t).depth = _
    rw [ih]
    have hafter := quote_after n c
    obtain ⟨quote, depth⟩ := n
    rcases segments_cases quote c with ⟨rfl, hc⟩ | rfl | ⟨hnone, hsome⟩
    · have hmark : c = '\'' ∨ c = '"' := by simpa [isQuote] using hc
      rw [unquoted_of_isQuote hc]
      simp [Nesting.after, hmark]
    · rw [unquoted_some_self]
      simp [Nesting.after]
    · rw [unquoted_cons hnone hsome]
      cases quote with
      | some m => simp [Nesting.after, hsome m rfl]
      | none =>
        -- only outside of quotes a bracket counts
        have hmark : ¬ (c = '\'' ∨ c = '"') := by simpa [isQuote] using hnone rfl
        simp only [Nesting.after, hmark, if_false, Option.isSome_none, Bool.false_eq_true,
          List.singleton_append, level, List.foldl_cons, isOpening, isClosing, Bool.or_eq_true,
          decide_eq_true_eq]
        split
        · rfl
        · split <;> rfl

/-- The splitter is outside of quotes and brackets where the text in front is
    closed. -/
theorem closed_iff {t : Text} : Closed t ↔ Nesting.outer.behind t = .outer := by
  have hquote : (segments none t).getLast?.map Segment.quoted =
      some (Nesting.outer.behind t).quote.isSome := getLast?_segments .outer t
  have hdepth : (Nesting.outer.behind t).depth = level 0 (unquoted none t) :=
    depth_behind .outer t
  constructor
  · rintro ⟨hclosed, hbrackets⟩
    have hnone : (Nesting.outer.behind t).quote = none := by
      rw [hquote] at hclosed
      simpa using hclosed
    have hzero : (Nesting.outer.behind t).depth = 0 := by
      rw [hdepth]
      exact level_eq_zero_iff.2 ⟨by simpa using hbrackets _ List.suffix_rfl, hbrackets⟩
    generalize Nesting.outer.behind t = n at hnone hzero ⊢
    obtain ⟨quote, depth⟩ := n
    obtain rfl : quote = none := hnone
    obtain rfl : depth = 0 := hzero
    rfl
  · intro houter
    rw [houter] at hquote hdepth
    exact ⟨hquote, (level_eq_zero_iff.1 hdepth.symm).2⟩

/-! ## Selectors of a list -/

/-- A text is whole if every comma in it stands where the splitter is inside of
    quotes or brackets. -/
theorem whole_iff {n : Nesting} {s : Text} : Whole n s ↔
    ∀ before behind, s = before ++ ',' :: behind → n.behind before ≠ .outer := by
  induction s generalizing n with
  | nil => simp [Whole]
  | cons c s ih =>
    rw [Whole, ih]
    constructor
    · rintro ⟨hfirst, hrest⟩ before behind heq
      cases before with
      | nil =>
        obtain ⟨rfl, -⟩ := List.cons.inj heq
        exact fun houter => hfirst ⟨rfl, houter⟩
      | cons d before =>
        obtain ⟨rfl, htail⟩ := List.cons.inj heq
        exact hrest before behind htail
    · intro h
      constructor
      · rintro ⟨rfl, houter⟩
        exact h [] s rfl houter
      · intro before behind heq
        exact h (c :: before) behind (by rw [heq]; rfl)

theorem isEntry_iff {s : Text} : IsEntry s ↔ s ≠ [] ∧ IsTrimmed s ∧ Whole .outer s := by
  have hcomma : (∀ before behind, s = before ++ ',' :: behind → ¬ Closed before) ↔
      Whole .outer s := by
    simp only [whole_iff, closed_iff, ne_eq]
  constructor
  · rintro ⟨hne, htrimmed, h⟩
    exact ⟨hne, htrimmed, hcomma.1 h⟩
  · rintro ⟨hne, htrimmed, h⟩
    exact ⟨hne, htrimmed, hcomma.2 h⟩

instance decidableWhole : (n : Nesting) → (s : Text) → Decidable (Whole n s)
  | _, [] => .isTrue trivial
  | n, c :: s =>
    have : Decidable (Whole (n.after c) s) := decidableWhole (n.after c) s
    inferInstanceAs (Decidable (¬ (c = ',' ∧ n = .outer) ∧ Whole (n.after c) s))

instance (t : Text) : Decidable (Closed t) := decidable_of_iff _ closed_iff.symm

theorem isTrimmed_iff {s : Text} :
    IsTrimmed s ↔ s.head?.any isBlank = false ∧ s.getLast?.any isBlank = false := by
  simp only [Option.any_eq_false]
  exact ⟨fun h => ⟨by simpa using h.start, by simpa using h.finish⟩,
    fun h => ⟨by simpa using h.1, by simpa using h.2⟩⟩

instance (s : Text) : Decidable (IsTrimmed s) := decidable_of_iff _ isTrimmed_iff.symm

instance (s : Text) : Decidable (IsEntry s) := decidable_of_iff _ isEntry_iff.symm

theorem isEntry_of_mem_split {s t : Text} (h : s ∈ split t) : IsEntry s := by
  have hlist := isList_split t
  exact isEntry_iff.2 ⟨hlist.ne_nil s h, hlist.trimmed s h, hlist.whole s h⟩

theorem isList_of_forall_isEntry {ss : List Text} (h : ∀ s ∈ ss, IsEntry s ∧ Closed s) :
    IsList ss where
  separated := by
    induction ss with
    | nil => trivial
    | cons s ss ih =>
      obtain ⟨hentry, hclosed⟩ := h s (List.mem_cons_self ..)
      exact ⟨(isEntry_iff.1 hentry).2.2, fun _ => closed_iff.1 hclosed,
        ih fun a ha => h a (List.mem_cons_of_mem _ ha)⟩
  trimmed := fun s hs => (h s hs).1.trimmed
  ne_nil := fun s hs => (h s hs).1.ne_nil

/-- The selectors of any text are trimmed, not empty and without commas but
    those in quotes and brackets, and they are split again as they are
    joined. So is every list of such selectors in which all quotes and
    brackets are closed, so a rule that is made for the joined list has the
    selectors of the list. -/
theorem split_joined :
    (∀ t, (∀ s ∈ split t, IsEntry s) ∧ split (joinList (split t)) = split t) ∧
      ∀ ss, (∀ s ∈ ss, IsEntry s ∧ Closed s) → split (joinList ss) = ss ∧
        ∀ nodes source, Node.ruleOf (joinList ss) nodes source = .rule ss nodes source := by
  refine ⟨fun t => ⟨fun s hs => isEntry_of_mem_split hs, split_joinList (isList_split t)⟩, ?_⟩
  intro ss h
  have hsplit := split_joinList (isList_of_forall_isEntry h)
  refine ⟨hsplit, fun nodes source => ?_⟩
  rw [Node.ruleOf, hsplit]

/-- Commas in brackets and quotes, an opening bracket in quotes, and a closing
    one that closes nothing. -/
def entangledList : List Text :=
  [":is(a, b)".toList, "[title=\"a,(b'\"]".toList, "a) b".toList, "c".toList]

theorem split_joined_entangled :
    (∀ s ∈ entangledList, IsEntry s ∧ Closed s) ∧
      split (joinList entangledList) = entangledList ∧
      Node.ruleOf (joinList entangledList) [] none = .rule entangledList [] none := by
  have hentries : ∀ s ∈ entangledList, IsEntry s ∧ Closed s := by decide
  obtain ⟨hsplit, hrule⟩ := split_joined.2 entangledList hentries
  exact ⟨hentries, hsplit, hrule [] none⟩

/-- What stands in an open quote belongs to the last selector, blanks included
    up to its end. -/
example : split "a , \"b , c ".toList = ["a".toList, "\"b , c".toList] := by decide

end Selector

end StyleSlots
