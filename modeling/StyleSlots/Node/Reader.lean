import StyleSlots.Lexeme.Scan
import StyleSlots.Node.ReadError

/-! # Reading style text

    - **Declarations**: a property before the first colon, a value behind
      it, and importance if the value ends in the mark for it.
    - **Nesting**: a head opens a frame and a brace closes it. The nodes of
      a closed frame become the contents of one node of the frame around.
    - **Two faults**: a fault of structure anywhere in a text comes before
      a run that is no declaration, however early that run stands.

    Reading is a fold over the tokens, so a text can be read up to any
    token and then further. -/

namespace StyleSlots

/-! ## Declarations -/

namespace Declaration

/-- The word of the mark for importance. -/
def importantWord : Text := "important".toList

/-- Whether `c` is `letter` in either case. The two forms of `i` with and
    without a dot, which only some alphabets tell apart, count as `i`. -/
def isLetter (letter c : Char) : Bool :=
  c.toLower = letter || (letter = 'i' && (c = '\u0130' || c = '\u0131'))

/-- Whether a text is the word of the mark, in any case. -/
def isImportantWord (t : Text) : Bool :=
  t.length = importantWord.length && (importantWord.zip t).all fun p => isLetter p.1 p.2

/-- A value without the mark for importance at its end, if it has one. -/
def unmarked? (value : Text) : Option Text :=
  let t := value.trimEnd
  let place := t.length - importantWord.length
  let before := Text.trimEnd (t.take place)
  if isImportantWord (t.drop place) && before.getLast? = some '!' then some before.dropLast
  else none

/-- The declaration that a run spells. There is none without a colon or
    with only blanks before it. -/
def ofRun? (run : Text) (source : Option Position) : Option Declaration :=
  let prop := Text.trim (run.takeWhile (· ≠ ':'))
  match run.dropWhile (· ≠ ':') with
  | [] => none
  | _ :: value =>
    if prop.isEmpty then none
    else
      match unmarked? value with
      | some unmarked => some { prop, value := Text.trim unmarked, important := true, source }
      | none => some { prop, value := Text.trim value, important := false, source }

end Declaration

/-! ## Nesting -/

/-- What a closing brace completes. -/
inductive Opening where
  | rule (selectors : List Text)
  | block (head : AtRule)
  deriving DecidableEq, Repr

/-- The node of an opening with its contents. -/
def Opening.node (opening : Opening) (nodes : List Node) (source : Option Position) : Node :=
  match opening with
  | .rule selectors => .rule selectors nodes source
  | .block head => .block head nodes source

/-- A rule or block that is still open. -/
structure Frame where
  opening : Opening
  start   : Position
  /-- The nodes that stand before it, last one first. -/
  before  : List Node
  deriving Repr

/-- How far a text has been read. -/
structure Reading where
  /-- The open rules and blocks, innermost first. -/
  frames  : List Frame
  /-- The nodes of the innermost frame so far, last one first. -/
  nodes   : List Node
  /-- Where the last token started. -/
  last    : Position
  /-- The first run that is no declaration. -/
  unknown : Option ReadError
  deriving Repr

namespace Reading

/-- Nothing has been read yet. -/
def initial (p : Position) : Reading := ⟨[], [], p, none⟩

/-- Adds a node to the innermost frame. -/
def push (r : Reading) (node : Node) (p : Position) : Reading :=
  { r with nodes := node :: r.nodes, last := p }

/-- Opens a frame, whose brace stands at `brace`. -/
def openFrame (r : Reading) (opening : Opening) (start brace : Position) : Reading :=
  { r with frames := ⟨opening, start, r.nodes⟩ :: r.frames, nodes := [], last := brace }

/-- Takes in one token. -/
def step (r : Reading) (token : Token) : Except ReadError Reading :=
  let p := token.start
  match token.lexeme with
  | .gap _ => .ok r
  | .semicolon => .ok { r with last := p }
  | .comment body => .ok (r.push (.comment body.trim (some p)) p)
  | .statement name params =>
    .ok (r.push (.other ('@' :: name) (Lexeme.statement name params).written (some p)) p)
  | .declaration run =>
    match Declaration.ofRun? run (some p) with
    | some d => .ok (r.push (.declaration d) p)
    -- not an error yet: a fault of structure further on comes before it
    | none => .ok { r with last := p, unknown := r.unknown.or (some (.unknownWord p run.trim)) }
  | .ruleStart run => .ok (r.openFrame (.rule (Selector.split run)) p (p.behind run))
  | .blockStart name params =>
    .ok (r.openFrame (.block ⟨name, params.trim⟩) p (p.behind ('@' :: name ++ params)))
  | .openBrace => .error (.headless p)
  | .closeBrace =>
    match r.frames with
    | [] => .error (.unopened p)
    | frame :: frames =>
      let node := frame.opening.node r.nodes.reverse (some frame.start)
      .ok { r with frames, nodes := node :: frame.before, last := p }

/-- Takes in tokens, first to last. -/
def steps (r : Reading) (tokens : List Token) : Except ReadError Reading := tokens.foldlM step r

/-- The nodes of a text that has been read to its end. -/
def finish (r : Reading) : Except ReadError (List Node) :=
  match r.frames, r.unknown with
  | _ :: _, _ => .error (.unclosed r.last)
  | [], some e => .error e
  | [], none => .ok r.nodes.reverse

end Reading

/-- The nodes of a style text from a named source. -/
def Node.ofText (source t : Text) : Except ReadError (List Node) := do
  let start : Position := ⟨1, 1, source⟩
  let scan := Scan.ofText start t
  let reading ← (Reading.initial start).steps scan.tokens
  match scan.stuck with
  | some (p, rest) => .error (.noLexemeAt p (t.take (t.length - rest.length)) rest)
  | none => reading.finish

end StyleSlots
