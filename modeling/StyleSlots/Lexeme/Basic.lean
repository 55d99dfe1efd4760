import StyleSlots.Node.Basic

/-! # Lexemes

    The text of a style sheet is cut into lexemes from left to right.

    - **Gaps**: ASCII blanks between items. Other blanks are no gaps, and
      no item starts with one either.
    - **Runs**: the characters up to the next brace or semicolon. What
      stands behind a run tells a rule from a declaration, and an at-rule
      block from an at-statement.
    - **Comments**: recognised only where an item may start; inside a run
      their characters are like any other.

    Together with the brace that opens it, the head of a rule or block is
    one lexeme. An opening brace that is a lexeme of its own therefore has
    no head. -/

namespace StyleSlots

/-! ## Characters -/

/-- A blank that may stand between items. -/
def isGap (c : Char) : Bool := c = ' ' || c = '\t' || c = '\n' || c = '\r' || c = '\x0c'

/-- A character that ends a run. -/
def isDelimiter (c : Char) : Bool := c = '\x7b' || c = '\x7d' || c = ';'

/-- A character of the name of an at-rule. -/
def isAtNameChar (c : Char) : Bool := c.isAlpha || c = '-'

/-- A character that a selector list or declaration may start with. -/
def startsRun (c : Char) : Bool :=
  ! (c = '@' || c = '/' || isDelimiter c || isBlank c)

/-! ## Lexemes -/

/-- A piece of the text of a style sheet. -/
inductive Lexeme where
  | gap (c : Char)
  | comment (body : Text)
  | semicolon
  | declaration (run : Text)
  /-- A selector list with its opening brace. -/
  | ruleStart (run : Text)
  /-- The head of an at-rule with its opening brace. -/
  | blockStart (name params : Text)
  /-- An at-rule that ends in a semicolon. -/
  | statement (name params : Text)
  | openBrace
  | closeBrace
  deriving DecidableEq, Repr

namespace Lexeme

/-- The text of a lexeme as it stands in the source. -/
def written : Lexeme → Text
  | gap c => [c]
  | comment body => '/' :: '*' :: body ++ ['*', '/']
  | semicolon => [';']
  | declaration run => run
  | ruleStart run => run ++ ['\x7b']
  | blockStart name params => '@' :: name ++ params ++ ['\x7b']
  | statement name params => '@' :: name ++ params ++ [';']
  | openBrace => ['\x7b']
  | closeBrace => ['\x7d']

/-! ## Recognising a lexeme -/

/-- The body of a comment up to the first `*/`, and what is behind that. -/
def commentBody? : Text → Option (Text × Text)
  | [] => none
  | '*' :: '/' :: rest => some ([], rest)
  | c :: rest => (commentBody? rest).map fun found => (c :: found.1, found.2)

/-- The characters up to the next delimiter. -/
def runOf (t : Text) : Text := t.takeWhile (! isDelimiter ·)

/-- What is behind the characters up to the next delimiter. -/
def behindRun (t : Text) : Text := t.dropWhile (! isDelimiter ·)

/-- The lexeme that starts with an at-sign, of which `t` is what follows. -/
def atRule? (t : Text) : Option (Lexeme × Text) :=
  let name := (runOf t).takeWhile isAtNameChar
  let params := (runOf t).dropWhile isAtNameChar
  if name.isEmpty then none
  else
    match behindRun t with
    | '\x7b' :: rest => some (blockStart name params, rest)
    | ';' :: rest => some (statement name params, rest)
    | _ => none

/-- The lexeme that starts with a run. -/
def run (t : Text) : Lexeme × Text :=
  match behindRun t with
  | '\x7b' :: rest => (ruleStart (runOf t), rest)
  | rest => (declaration (runOf t), rest)

/-- The lexeme at the start of a text, with what is behind it. -/
def next? : Text → Option (Lexeme × Text)
  | [] => none
  | ';' :: rest => some (semicolon, rest)
  | '\x7b' :: rest => some (openBrace, rest)
  | '\x7d' :: rest => some (closeBrace, rest)
  | '/' :: '*' :: rest => (commentBody? rest).map fun found => (comment found.1, found.2)
  | '@' :: rest => atRule? rest
  | c :: rest =>
    if isGap c then some (gap c, rest)
    else if startsRun c then some (run (c :: rest))
    -- a slash without a star, or a blank that is no gap
    else none

/-! ## A lexeme and its rest -/

theorem eq_of_commentBody? {t body rest : Text} (h : commentBody? t = some (body, rest)) :
    t = body ++ '*' :: '/' :: rest := by
  fun_induction commentBody? t generalizing body with
  | case1 => simp at h
  | case2 r =>
    simp only [Option.some.injEq, Prod.mk.injEq] at h
    simp [← h.1, ← h.2]
  | case3 c r _ ih =>
    -- the body goes on with `c`
    obtain ⟨found, hfound, heq⟩ := Option.map_eq_some_iff.1 h
    simp only [Prod.mk.injEq] at heq
    have hrest : commentBody? r = some (found.1, rest) := by rw [hfound, ← heq.2]
    simp [← heq.1, ← ih hrest]

theorem runOf_append_behindRun (t : Text) : runOf t ++ behindRun t = t :=
  List.takeWhile_append_dropWhile

theorem eq_of_atRule? {t rest : Text} {l : Lexeme} (h : atRule? t = some (l, rest)) :
    '@' :: t = l.written ++ rest := by
  have ht := runOf_append_behindRun t
  have hr : (runOf t).takeWhile isAtNameChar ++ (runOf t).dropWhile isAtNameChar = runOf t :=
    List.takeWhile_append_dropWhile
  simp only [atRule?] at h
  split at h
  · simp at h
  · split at h
    -- the run ends at an opening brace
    · next hb =>
      simp only [Option.some.injEq, Prod.mk.injEq] at h
      obtain ⟨rfl, rfl⟩ := h
      rw [hb, ← hr] at ht
      simpa [written] using ht.symm
    -- the run ends at a semicolon
    · next hb =>
      simp only [Option.some.injEq, Prod.mk.injEq] at h
      obtain ⟨rfl, rfl⟩ := h
      rw [hb, ← hr] at ht
      simpa [written] using ht.symm
    · simp at h

theorem eq_of_run {t rest : Text} {l : Lexeme} (h : run t = (l, rest)) :
    t = l.written ++ rest := by
  have ht := runOf_append_behindRun t
  simp only [run] at h
  split at h
  · next hb =>
    simp only [Prod.mk.injEq] at h
    obtain ⟨rfl, rfl⟩ := h
    rw [hb] at ht
    simpa [written] using ht.symm
  · simp only [Prod.mk.injEq] at h
    obtain ⟨rfl, rfl⟩ := h
    simp [written, ht]

/-- Nothing is lost between a lexeme and what is behind it. -/
theorem eq_of_next? {t rest : Text} {l : Lexeme} (h : next? t = some (l, rest)) :
    t = l.written ++ rest := by
  unfold next? at h
  split at h
  · simp at h
  · simp only [Option.some.injEq, Prod.mk.injEq] at h
    simp [← h.1, ← h.2, written]
  · simp only [Option.some.injEq, Prod.mk.injEq] at h
    simp [← h.1, ← h.2, written]
  · simp only [Option.some.injEq, Prod.mk.injEq] at h
    simp [← h.1, ← h.2, written]
  · obtain ⟨found, hfound, heq⟩ := Option.map_eq_some_iff.1 h
    simp only [Prod.mk.injEq] at heq
    simp [← heq.1, ← heq.2, written, eq_of_commentBody? hfound]
  · exact eq_of_atRule? h
  · split at h
    · simp only [Option.some.injEq, Prod.mk.injEq] at h
      simp [← h.1, ← h.2, written]
    · split at h
      · simp only [Option.some.injEq] at h
        exact eq_of_run h
      · simp at h

theorem written_run_ne_nil {c : Char} (h : startsRun c = true) (t : Text) :
    (run (c :: t)).1.written ≠ [] := by
  have hc : isDelimiter c = false := by
    simp only [startsRun, Bool.not_eq_true', Bool.or_eq_false_iff] at h
    exact h.1.2
  simp only [run]
  split <;> simp [written, runOf, hc]

/-- A lexeme is not empty, so what is behind it is shorter. -/
theorem length_lt_of_next? {t rest : Text} {l : Lexeme} (h : next? t = some (l, rest)) :
    rest.length < t.length := by
  have ht := eq_of_next? h
  have hl : l.written ≠ [] := by
    unfold next? at h
    split at h
    · simp at h
    · simp only [Option.some.injEq, Prod.mk.injEq] at h
      simp [← h.1, written]
    · simp only [Option.some.injEq, Prod.mk.injEq] at h
      simp [← h.1, written]
    · simp only [Option.some.injEq, Prod.mk.injEq] at h
      simp [← h.1, written]
    · obtain ⟨found, _, heq⟩ := Option.map_eq_some_iff.1 h
      simp only [Prod.mk.injEq] at heq
      simp [← heq.1, written]
    · simp only [atRule?] at h
      split at h
      · simp at h
      · split at h
        · simp only [Option.some.injEq, Prod.mk.injEq] at h
          simp [← h.1, written]
        · simp only [Option.some.injEq, Prod.mk.injEq] at h
          simp [← h.1, written]
        · simp at h
    · split at h
      · simp only [Option.some.injEq, Prod.mk.injEq] at h
        simp [← h.1, written]
      · split at h
        · next hs =>
          simp only [Option.some.injEq] at h
          have := written_run_ne_nil hs
          rw [← (Prod.mk.inj h).1]
          exact this _
        · simp at h
  have hpos := List.length_pos_iff.2 hl
  rw [ht, List.length_append]
  omega

end Lexeme

end StyleSlots
