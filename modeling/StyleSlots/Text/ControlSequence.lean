import StyleSlots.Text.Basic

/-! # Control sequences

    A terminal obeys some stretches of a text instead of showing them: they
    set a colour or move the cursor.

    - **Form**: an escape character and a left bracket, then parameters,
      then intermediates, then one final character. Only the final one has
      to be there.
    - **Plain text**: what remains without them, for a reader that is not a
      terminal.

    The three classes of characters do not overlap, so there is only one
    way to read a stretch as a control sequence. -/

namespace StyleSlots

namespace Text

/-! ## Form -/

/-- A digit or one of `:;<=>?`. -/
def isParameter (c : Char) : Bool := inRanges [(0x30, 0x3F)] c

/-- A space or one of the marks in front of the digits. -/
def isIntermediate (c : Char) : Bool := inRanges [(0x20, 0x2F)] c

/-- An ASCII character from `@` to `~`, which ends a control sequence. -/
def isFinal (c : Char) : Bool := inRanges [(0x40, 0x7E)] c

/-- What stands behind the control sequence that a text starts with. -/
def afterControl? : Text → Option Text
  | '\x1b' :: '[' :: body =>
    match (body.dropWhile isParameter).dropWhile isIntermediate with
    | [] => none
    | c :: rest => if isFinal c then some rest else none
  | _ => none

/-- A control sequence is not empty. -/
theorem length_lt_of_afterControl? {t rest : Text} (h : afterControl? t = some rest) :
    rest.length < t.length := by
  unfold afterControl? at h
  split at h
  · next body =>
    split at h
    · cases h
    · next c more hbody =>
      split at h
      · cases h
        -- dropping the parameters and the intermediates shortens the body
        have hinner := (List.dropWhile_suffix isParameter (l := body)).length_le
        have houter :=
          (List.dropWhile_suffix isIntermediate (l := body.dropWhile isParameter)).length_le
        rw [hbody] at houter
        simp only [List.length_cons] at houter ⊢
        omega
      · cases h
  · cases h

/-! ## Plain text -/

/-- A text without its control sequences. -/
def plain : Text → Text
  | [] => []
  | c :: rest =>
    match _h : afterControl? (c :: rest) with
    | some behind => plain behind
    | none => c :: plain rest
termination_by t => t.length
decreasing_by
  · exact length_lt_of_afterControl? _h
  · exact Nat.lt_succ_self _

end Text

end StyleSlots
