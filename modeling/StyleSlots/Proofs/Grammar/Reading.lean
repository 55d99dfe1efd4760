import StyleSlots.Proofs.Grammar.Items
import StyleSlots.Proofs.Text.Trimmed
import Mathlib.Data.List.TakeWhile

/-! # Items are read as they are meant

    - **Scanning**: a text that spells legal items is cut into the lexemes
      of these items, whatever stands behind it.
    - **Reading**: the tokens of items leave the open frames alone and add
      the nodes of the items, and the first run without a property is kept
      in mind.
    - **Main statement**: `ofText_writtenAll`, a text that spells legal
      items is read as their nodes, or refused at the first run that is no
      declaration. -/

namespace StyleSlots

theorem Position.behind_append (p : Position) (s t : Text) :
    p.behind (s ++ t) = (p.behind s).behind t := by
  simp [Position.behind]

/-! ## Scanning -/

namespace Scan

/-- A scan with tokens in front. -/
def behind (tokens : List Token) (s : Scan) : Scan := ⟨tokens ++ s.tokens, s.stuck⟩

theorem behind_behind (a b : List Token) (s : Scan) :
    (s.behind b).behind a = s.behind (a ++ b) := by
  simp [behind]

theorem ofText_nil (p : Position) : ofText p [] = ⟨[], none⟩ := by
  rw [ofText]
  rfl

/-- A lexeme in front of a text is the first token of its scan. -/
theorem ofText_cons {l : Lexeme} {rest : Text} (h : l.Fits rest) (p : Position) :
    ofText p (l.written ++ rest) = (ofText (p.behind l.written) rest).behind [⟨l, p⟩] := by
  have hnext := Lexeme.next?_eq_some_iff.2 ⟨rfl, h⟩
  rw [ofText]
  split
  · next heq =>
    rw [hnext] at heq
    obtain ⟨rfl, rfl⟩ := Prod.mk.inj (Option.some.inj heq)
    rfl
  · next heq =>
    rw [hnext] at heq
    cases heq

end Scan

namespace Item

mutual

/-- The tokens of an item that starts at `p`. -/
def tokens (p : Position) : Item → List Token
  | gap c => [⟨.gap c, p⟩]
  | semicolon => [⟨.semicolon, p⟩]
  | comment body => [⟨.comment body, p⟩]
  | statement name params => [⟨.statement name params, p⟩]
  | declaration run => [⟨.declaration run, p⟩]
  | rule run items =>
    ⟨.ruleStart run, p⟩ :: (tokensAll (p.behind (run ++ ['\x7b'])) items ++
      [⟨.closeBrace, (p.behind (run ++ ['\x7b'])).behind (writtenAll items)⟩])
  | block name params items =>
    ⟨.blockStart name params, p⟩ ::
      (tokensAll (p.behind ('@' :: name ++ params ++ ['\x7b'])) items ++
        [⟨.closeBrace, (p.behind ('@' :: name ++ params ++ ['\x7b'])).behind (writtenAll items)⟩])

/-- The tokens of a sequence of items that starts at `p`. -/
def tokensAll (p : Position) : List Item → List Token
  | [] => []
  | item :: more => tokens p item ++ tokensAll (p.behind (written item)) more

end

theorem endsRun_closeBrace (t : Text) : EndsRun ('\x7d' :: t) := by
  intro c hc
  exact .inr (Option.some.inj hc).symm

/-- What follows a declaration ends its run. -/
theorem endsRun_writtenAll {more : List Item} {rest : Text}
    (h : ∀ next ∈ more.head?, next = semicolon) (hrest : EndsRun rest) :
    EndsRun (writtenAll more ++ rest) := by
  cases more with
  | nil => exact hrest
  | cons next more =>
    rw [h next rfl]
    intro c hc
    exact .inl (Option.some.inj hc).symm

/-- The scan of a head, of the items between its braces, and of what is
    behind them. -/
theorem ofText_braces {l : Lexeme} {items : List Item} {rest : Text} (p : Position)
    (hhead : l.Fits (writtenAll items ++ '\x7d' :: rest))
    (hitems : ∀ p, Scan.ofText p (writtenAll items ++ '\x7d' :: rest) =
      (Scan.ofText (p.behind (writtenAll items)) ('\x7d' :: rest)).behind (tokensAll p items)) :
    Scan.ofText p (l.written ++ (writtenAll items ++ '\x7d' :: rest)) =
      (Scan.ofText (p.behind (l.written ++ writtenAll items ++ ['\x7d'])) rest).behind
        (⟨l, p⟩ :: (tokensAll (p.behind l.written) items ++
          [⟨.closeBrace, (p.behind l.written).behind (writtenAll items)⟩])) := by
  -- the closing brace is a lexeme by itself, whatever stands behind it
  have hclose : Scan.ofText ((p.behind l.written).behind (writtenAll items)) ('\x7d' :: rest) =
      _ := Scan.ofText_cons (l := .closeBrace) trivial _
  rw [Scan.ofText_cons hhead, hitems, hclose, Scan.behind_behind, Scan.behind_behind,
    Position.behind_append, Position.behind_append]
  rfl

mutual

theorem ofText_item : ∀ (item : Item) (rest : Text) (p : Position), item.Legal →
    (item.isOpen = true → EndsRun rest) → Scan.ofText p (item.written ++ rest) =
      (Scan.ofText (p.behind item.written) rest).behind (item.tokens p)
  | gap c, rest, p, h, _ => Scan.ofText_cons (l := .gap c) h p
  | semicolon, rest, p, _, _ => Scan.ofText_cons (l := .semicolon) trivial p
  | comment body, rest, p, h, _ => Scan.ofText_cons (l := .comment body) h p
  | statement name params, rest, p, h, _ => Scan.ofText_cons (l := .statement name params) h p
  | declaration run, rest, p, h, hrest =>
    Scan.ofText_cons (l := .declaration run) ⟨h, hrest rfl⟩ p
  | rule run items, rest, p, h, _ => by
    have hitems := fun p =>
      ofText_items items ('\x7d' :: rest) p h.2 (endsRun_closeBrace rest)
    have hscan := ofText_braces (l := .ruleStart run) p h.1 hitems
    simpa [written, tokens, Lexeme.written] using hscan
  | block name params items, rest, p, h, _ => by
    have hitems := fun p =>
      ofText_items items ('\x7d' :: rest) p h.2 (endsRun_closeBrace rest)
    have hscan := ofText_braces (l := .blockStart name params) p h.1 hitems
    simpa [written, tokens, Lexeme.written] using hscan

/-- A text that starts with legal items is cut into their tokens and those
    of what is behind them. -/
theorem ofText_items : ∀ (items : List Item) (rest : Text) (p : Position), LegalAll items →
    EndsRun rest → Scan.ofText p (writtenAll items ++ rest) =
      (Scan.ofText (p.behind (writtenAll items)) rest).behind (tokensAll p items)
  | [], rest, p, _, _ => rfl
  | item :: more, rest, p, h, hrest => by
    obtain ⟨hitem, hfollow, hmore⟩ := h
    have hopen : item.isOpen = true → EndsRun (writtenAll more ++ rest) :=
      fun ho => endsRun_writtenAll (hfollow ho) hrest
    rw [writtenAll, List.append_assoc, ofText_item item _ p hitem hopen,
      ofText_items more rest _ hmore hrest, Scan.behind_behind, Position.behind_append]
    rfl

end

end Item

/-! ## Reading -/

theorem contains_eq_dropWhile (c : Char) (t : Text) :
    t.contains c = ! (t.dropWhile (· ≠ c)).isEmpty := by
  rw [Bool.eq_iff_iff, List.contains_iff_mem]
  constructor
  · intro h
    by_cases hnil : t.dropWhile (· ≠ c) = []
    · have hall := List.dropWhile_eq_nil_iff.1 hnil c h
      simp at hall
    · simpa using hnil
  · intro h
    obtain ⟨d, s, hd⟩ := List.exists_cons_of_ne_nil (by simpa using h : t.dropWhile (· ≠ c) ≠ [])
    -- what is left starts with the first `c`
    have hstop := Text.head?_dropWhile (· ≠ c) t d (by rw [hd]; rfl)
    have hdc : d = c := by simpa using hstop
    subst hdc
    exact (List.dropWhile_sublist _).subset (by rw [hd]; exact List.mem_cons_self ..)

theorem isEmpty_trim (t : Text) : t.trim.isEmpty = ! t.any (! isBlank ·) := by
  rw [Bool.eq_iff_iff, List.isEmpty_iff, Text.trim_eq_nil_iff]
  simp

/-- A run that is no declaration is one without a property. -/
theorem Declaration.ofRun?_isNone (run : Text) (source : Option Position) :
    (ofRun? run source).isNone = ! Item.hasProperty run := by
  rw [Item.hasProperty, contains_eq_dropWhile,
    ← Bool.not_not ((run.takeWhile (· ≠ ':')).any (! isBlank ·)), ← isEmpty_trim]
  -- from here on only the two sides of the first colon count
  unfold ofRun?
  generalize run.dropWhile (· ≠ ':') = behind
  generalize Text.trim (run.takeWhile (· ≠ ':')) = prop
  cases behind with
  | nil => rfl
  | cons colon value =>
    by_cases hprop : prop.isEmpty = true
    · simp [hprop]
    · simp only [hprop]
      cases unmarked? value <;> rfl

namespace Reading

theorem steps_append (r : Reading) (a b : List Token) :
    r.steps (a ++ b) = r.steps a >>= fun r => r.steps b := by
  simp [steps, List.foldlM_append]

theorem steps_cons (r : Reading) (token : Token) (tokens : List Token) :
    r.steps (token :: tokens) = r.step token >>= fun r => r.steps tokens := by
  simp [steps, List.foldlM_cons]

/-- The reading after more nodes, where a run without a property may have
    been met among them. -/
def extend (r : Reading) (nodes : List Node) (unknown : Option ReadError) (last : Position) :
    Reading :=
  ⟨r.frames, nodes.reverse ++ r.nodes, last, r.unknown.or unknown⟩

end Reading

namespace Item

/-- The error for the first of some runs that has no property. -/
def unknown? (runs : List (Position × Text)) : Option ReadError :=
  (runs.find? fun d => ! hasProperty d.2).map fun d => .unknownWord d.1 d.2.trim

theorem unknown?_append (a b : List (Position × Text)) :
    unknown? (a ++ b) = (unknown? a).or (unknown? b) := by
  unfold unknown?
  rw [List.find?_append]
  cases a.find? fun d => ! hasProperty d.2 <;> rfl

end Item

namespace Reading

/-- Whether the tokens are read as the nodes, from any reading on. -/
def Reads (tokens : List Token) (nodes : List Node) (unknown : Option ReadError) : Prop :=
  ∀ r : Reading, ∃ last, r.steps tokens = .ok (r.extend nodes unknown last)

theorem reads_nil : Reads [] [] none := by
  intro r
  refine ⟨r.last, ?_⟩
  simp [steps, extend, pure, Except.pure]

theorem Reads.append {a b : List Token} {ms ns : List Node} {u v : Option ReadError}
    (ha : Reads a ms u) (hb : Reads b ns v) : Reads (a ++ b) (ms ++ ns) (u.or v) := by
  intro r
  obtain ⟨last, hr⟩ := ha r
  obtain ⟨last', hr'⟩ := hb (r.extend ms u last)
  refine ⟨last', ?_⟩
  rw [steps_append, hr]
  show (r.extend ms u last).steps b = _
  rw [hr']
  simp [extend, Option.or_assoc]

/-- One token that opens and closes nothing. -/
theorem reads_singleton {token : Token} {nodes : List Node} {unknown : Option ReadError}
    (h : ∀ r : Reading, ∃ last, r.step token = .ok (r.extend nodes unknown last)) :
    Reads [token] nodes unknown := by
  intro r
  obtain ⟨last, hr⟩ := h r
  refine ⟨last, ?_⟩
  rw [steps_cons, hr]
  rfl

/-- A head opens a frame, and the brace behind its contents closes it. -/
theorem Reads.braces {token close : Token} {tokens : List Token} (opening : Opening)
    {nodes : List Node} {unknown : Option ReadError} {start brace : Position}
    (hopen : ∀ r : Reading, r.step token = .ok (r.openFrame opening start brace))
    (hinside : Reads tokens nodes unknown) (hclose : close.lexeme = .closeBrace) :
    Reads (token :: (tokens ++ [close])) [opening.node nodes (some start)] unknown := by
  intro r
  obtain ⟨last, hr⟩ := hinside (r.openFrame opening start brace)
  refine ⟨close.start, ?_⟩
  -- the frame starts without nodes, so what it holds in the end are those inside
  rw [steps_cons, hopen]
  show (r.openFrame opening start brace).steps (tokens ++ [close]) = _
  rw [steps_append, hr]
  show ((r.openFrame opening start brace).extend nodes unknown last).steps [close] = _
  rw [steps_cons]
  simp [step, hclose, extend, openFrame, steps, bind, Except.bind, pure, Except.pure]

end Reading

namespace Item

open Reading

theorem reads_declaration (run : Text) (p : Position) :
    Reads [⟨.declaration run, p⟩] ((Declaration.ofRun? run (some p)).toList.map .declaration)
      (unknown? [(p, run)]) := by
  refine reads_singleton ?_
  intro r
  refine ⟨p, ?_⟩
  have hnone := Declaration.ofRun?_isNone run (some p)
  cases hrun : Declaration.ofRun? run (some p) with
  | none =>
    rw [hrun] at hnone
    have hproperty : hasProperty run = false := by simpa using hnone
    simp [step, hrun, extend, unknown?, hproperty]
  | some d =>
    rw [hrun] at hnone
    have hproperty : hasProperty run = true := by simpa using hnone
    simp [step, hrun, extend, unknown?, hproperty, push]

mutual

theorem reads_item : ∀ (item : Item) (p : Position),
    Reads (item.tokens p) (item.nodes p) (unknown? (item.runs p))
  | gap c, p => reads_singleton fun r => ⟨r.last, by simp [step, extend, unknown?, nodes, runs]⟩
  | semicolon, p => reads_singleton fun r => ⟨p, by simp [step, extend, unknown?, nodes, runs]⟩
  | comment body, p =>
    reads_singleton fun r => ⟨p, by simp [step, extend, push, unknown?, nodes, runs]⟩
  | statement name params, p =>
    reads_singleton fun r =>
      ⟨p, by simp [step, extend, push, unknown?, nodes, runs, Lexeme.written]⟩
  | declaration run, p => reads_declaration run p
  | rule run items, p =>
    Reads.braces (.rule (Selector.split run)) (fun _ => rfl)
      (reads_items items (p.behind (run ++ ['\x7b']))) rfl
  | block name params items, p =>
    Reads.braces (.block ⟨name, params.trim⟩) (fun _ => rfl)
      (reads_items items (p.behind ('@' :: name ++ params ++ ['\x7b']))) rfl

/-- The tokens of items are read as their nodes. -/
theorem reads_items : ∀ (items : List Item) (p : Position),
    Reads (tokensAll p items) (nodesAll p items) (unknown? (runsAll p items))
  | [], _ => reads_nil
  | item :: more, p => by
    rw [runsAll, unknown?_append]
    exact (reads_item item p).append (reads_items more (p.behind item.written))

end

end Item

/-! ## Texts -/

/-- The position of the first character of a source. -/
def Position.origin (source : Text) : Position := ⟨1, 1, source⟩

theorem Item.unknown?_eq_none_iff {runs : List (Position × Text)} :
    Item.unknown? runs = none ↔ ∀ d ∈ runs, Item.hasProperty d.2 = true := by
  unfold Item.unknown?
  rw [Option.map_eq_none_iff, List.find?_eq_none]
  simp

/-- Reading a text is taking in its tokens, unless the scan is stuck. -/
theorem Node.ofText_eq (source t : Text) :
    Node.ofText source t =
      ((Reading.initial (.origin source)).steps (Scan.ofText (.origin source) t).tokens).bind
        fun reading =>
          match (Scan.ofText (.origin source) t).stuck with
          | some (p, rest) => .error (.noLexemeAt p (t.take (t.length - rest.length)) rest)
          | none => reading.finish := rfl

/-- A text that spells legal items is read as their nodes, or refused at the
    first run that is no declaration. -/
theorem Node.ofText_writtenAll (source : Text) {items : List Item} (h : Item.LegalAll items) :
    Node.ofText source (Item.writtenAll items) =
      match Item.unknown? (Item.runsAll (.origin source) items) with
      | none => .ok (Item.nodesAll (.origin source) items)
      | some e => .error e := by
  have hscan := Item.ofText_items items [] (.origin source) h (by simp [EndsRun])
  rw [List.append_nil, Scan.ofText_nil] at hscan
  obtain ⟨last, hread⟩ := Item.reads_items items (.origin source)
    (Reading.initial (.origin source))
  rw [Node.ofText_eq, hscan]
  simp only [Scan.behind, List.append_nil]
  rw [hread]
  -- no frame is left open, so only a run without a property is refused
  cases hunknown : Item.unknown? (Item.runsAll (.origin source) items) <;>
    simp [Reading.finish, Reading.extend, Reading.initial, Except.bind]

end StyleSlots
