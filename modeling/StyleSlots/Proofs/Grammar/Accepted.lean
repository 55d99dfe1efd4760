import StyleSlots.Proofs.Grammar.Reading

/-! # The texts that are style sheets

    - **Completion**: what is still to be read when some rules and blocks
      are open: items, a brace, the items of the frame around, and so on to
      the end of the text. Every token keeps this from behind, so a text
      that is read to its end spells items.
    - **Places**: a reading refers to characters of the text only, and so
      does every error that it ends with.
    - **Main statement**: `ofText_grammar`, the texts that are read are those
      that spell legal items with a property in each declaration, they are
      read as the nodes of these items, and any other text is refused with a
      reference to one of its characters. -/

namespace StyleSlots

namespace Item

/-! ## Completion -/

/-- Whether a text closes `depth` open rules and blocks, with legal items
    before, between and behind the braces. -/
inductive Completes : Nat → Text → Prop where
  | items {items : List Item} (h : LegalAll items) : Completes 0 (writtenAll items)
  | close {items : List Item} {depth : Nat} {t : Text} (h : LegalAll items)
      (more : Completes depth t) : Completes (depth + 1) (writtenAll items ++ '\x7d' :: t)

/-- No item but a semicolon starts with what may end a run. -/
theorem eq_semicolon_of_endsRun {item : Item} {t : Text} (h : item.Legal)
    (hend : EndsRun (item.written ++ t)) : item = semicolon := by
  have hstart : ∀ {run s : Text}, IsRun run → ¬ EndsRun (run ++ s) := by
    intro run s hrun hends
    obtain ⟨c, u, rfl, hc⟩ := Lexeme.exists_cons_of_isRun hrun
    have hdelimiter := (startsRun_iff.1 hc).2.2.1
    rcases hends c rfl with rfl | rfl <;> cases hdelimiter
  cases item with
  | gap c =>
    have hgap : isGap c = true := h
    rcases hend c rfl with rfl | rfl <;> cases hgap
  | semicolon => rfl
  | comment body => rcases hend '/' rfl with heq | heq <;> cases heq
  | statement name params => rcases hend '@' rfl with heq | heq <;> cases heq
  | declaration run => exact absurd hend (hstart h)
  | rule run items =>
    rw [written, List.append_assoc, List.append_assoc] at hend
    exact absurd hend (hstart h.1)
  | block name params items => rcases hend '@' rfl with heq | heq <;> cases heq

/-- An item in front of others is legal if its run ends where they start. -/
theorem legalAll_cons {item : Item} {more : List Item} {t : Text} (hitem : item.Legal)
    (hmore : LegalAll more) (hopen : item.isOpen = true → EndsRun (writtenAll more ++ t)) :
    LegalAll (item :: more) := by
  refine ⟨hitem, ?_, hmore⟩
  intro ho next hnext
  cases more with
  | nil => cases hnext
  | cons first more =>
    obtain rfl : first = next := Option.some.inj hnext
    -- of all items only a semicolon can end the run in front of it
    have hends := hopen ho
    rw [writtenAll, List.append_assoc] at hends
    exact eq_semicolon_of_endsRun hmore.1 hends

namespace Completes

variable {depth : Nat} {t : Text}

theorem cons (h : Completes depth t) (item : Item) (hitem : item.Legal)
    (hopen : item.isOpen = true → EndsRun t) : Completes depth (item.written ++ t) := by
  cases h with
  | @items more hmore =>
    have hopen' : item.isOpen = true → EndsRun (writtenAll more ++ []) := by
      rw [List.append_nil]
      exact hopen
    have hall : LegalAll (item :: more) := legalAll_cons hitem hmore hopen'
    exact .items hall
  | @close more depth t hmore hrest =>
    have hall : LegalAll (item :: more) := legalAll_cons hitem hmore hopen
    rw [← List.append_assoc]
    exact .close hall hrest

/-- The items up to a closing brace are those of the rule or block in front
    of them. -/
theorem nest {head : Text} (item : List Item → Item)
    (hwritten : ∀ items, (item items).written = head ++ '\x7b' :: writtenAll items ++ ['\x7d'])
    (hlegal : ∀ items, LegalAll items → (item items).Legal)
    (hclosed : ∀ items, (item items).isOpen = false) (h : Completes (depth + 1) t) :
    Completes depth (head ++ '\x7b' :: t) := by
  cases h with
  | @close items depth t hitems hrest =>
    have hcons := hrest.cons (item items) (hlegal items hitems) (by simp [hclosed])
    rw [hwritten] at hcons
    simpa using hcons

/-- A token that is taken in keeps, from behind, what is still to be read. -/
theorem of_step {r r' : Reading} {l : Lexeme} {p : Position} (hstep : r.step ⟨l, p⟩ = .ok r')
    (hfits : l.Fits t) (h : Completes r'.frames.length t) :
    Completes r.frames.length (l.written ++ t) := by
  cases l with
  | gap c =>
    obtain rfl := Except.ok.inj hstep
    exact h.cons (.gap c) hfits (by simp [isOpen])
  | comment body =>
    obtain rfl := Except.ok.inj hstep
    exact h.cons (.comment body) hfits (by simp [isOpen])
  | semicolon =>
    obtain rfl := Except.ok.inj hstep
    exact h.cons .semicolon trivial (by simp [isOpen])
  | declaration run =>
    have hframes : r'.frames = r.frames := by
      simp only [Reading.step] at hstep
      split at hstep
      · obtain rfl := Except.ok.inj hstep
        rfl
      · obtain rfl := Except.ok.inj hstep
        rfl
    rw [hframes] at h
    exact h.cons (.declaration run) hfits.1 fun _ => hfits.2
  | ruleStart run =>
    obtain rfl := Except.ok.inj hstep
    have hnest := nest (.rule run) (fun _ => rfl) (fun _ hitems => ⟨hfits, hitems⟩)
      (fun _ => rfl) h
    simpa [Lexeme.written] using hnest
  | blockStart name params =>
    obtain rfl := Except.ok.inj hstep
    have hnest := nest (.block name params) (fun _ => rfl)
      (fun _ hitems => ⟨hfits, hitems⟩) (fun _ => rfl) h
    simpa [Lexeme.written] using hnest
  | statement name params =>
    obtain rfl := Except.ok.inj hstep
    exact h.cons (.statement name params) hfits (by simp [isOpen])
  | openBrace => cases hstep
  | closeBrace =>
    -- a frame was open, and what is behind the brace completes the others
    obtain ⟨frames, nodes, last, unknown⟩ := r
    cases frames with
    | nil => cases hstep
    | cons frame frames =>
      obtain rfl := Except.ok.inj hstep
      have hnone : LegalAll [] := trivial
      exact .close hnone h

end Completes

/-- A text that is read to its end completes the frames that are open before
    it. -/
theorem completes_of_steps {p : Position} {t : Text} {r r' : Reading}
    (hstuck : (Scan.ofText p t).stuck = none)
    (hsteps : r.steps (Scan.ofText p t).tokens = .ok r') (hframes : r'.frames = []) :
    Completes r.frames.length t := by
  -- along the scan, with any frames open: the tokens behind the first one
  -- complete what it leaves open
  induction p, t using Scan.ofText.induct generalizing r with
  | case1 p t l rest hnext ih =>
    obtain ⟨rfl, hfits⟩ := Lexeme.next?_eq_some_iff.1 hnext
    rw [Scan.ofText_cons hfits] at hstuck hsteps
    have hsteps' : (r.step ⟨l, p⟩ >>= fun r =>
        r.steps (Scan.ofText (p.behind l.written) rest).tokens) = .ok r' := by
      rw [← Reading.steps_cons]
      exact hsteps
    cases hstep : r.step ⟨l, p⟩ with
    | error e =>
      rw [hstep] at hsteps'
      cases hsteps'
    | ok r₁ =>
      rw [hstep] at hsteps'
      exact Completes.of_step hstep hfits (ih hstuck hsteps')
  | case2 p t hnext =>
    have hnil : t = [] := by
      rw [Scan.ofText] at hstuck
      split at hstuck
      · next heq =>
        rw [hnext] at heq
        cases heq
      · by_cases h : t.isEmpty = true
        · exact List.isEmpty_iff.1 h
        · simp [h] at hstuck
    subst hnil
    rw [Scan.ofText_nil] at hsteps
    obtain rfl : r = r' := Except.ok.inj hsteps
    rw [hframes]
    have hnone : LegalAll [] := trivial
    exact .items hnone

end Item

/-! ## Places -/

namespace Position

/-- Whether a position is that of a character of a text that starts at
    `start`. -/
def Denotes (start : Position) (t : Text) (p : Position) : Prop :=
  ∃ before c behind, t = before ++ c :: behind ∧ p = start.behind before

/-- A character further on in a text. -/
theorem Denotes.of_behind {start p : Position} {s t : Text} (h : Denotes (start.behind s) t p) :
    Denotes start (s ++ t) p := by
  obtain ⟨before, c, behind, rfl, rfl⟩ := h
  refine ⟨s ++ before, c, behind, by simp, ?_⟩
  rw [behind_append]

theorem denotes_self (start : Position) (c : Char) (t : Text) : Denotes start (c :: t) start :=
  ⟨[], c, t, rfl, rfl⟩

end Position

/-- Whether every character of a token is one for which `P` holds of its
    position. -/
def Token.Within (P : Position → Prop) (token : Token) : Prop :=
  ∀ u c v, token.lexeme.written = u ++ c :: v → P (token.start.behind u)

theorem Lexeme.written_ne_nil {l : Lexeme} {rest : Text} (h : l.Fits rest) : l.written ≠ [] := by
  have hshort := length_lt_of_next? (next?_written h)
  intro hnil
  rw [hnil, List.nil_append] at hshort
  omega

theorem Token.Within.start {P : Position → Prop} {token : Token} (h : token.Within P) {rest : Text}
    (hfits : token.lexeme.Fits rest) : P token.start := by
  obtain ⟨c, v, hcv⟩ := List.exists_cons_of_ne_nil (Lexeme.written_ne_nil hfits)
  exact h [] c v hcv

/-- Tokens consist of characters of the text, and a scan is stuck at one. -/
theorem Scan.denotes (start : Position) (t : Text) :
    (∀ token ∈ (ofText start t).tokens,
      (∃ rest, token.lexeme.Fits rest) ∧ token.Within (Position.Denotes start t)) ∧
    ∀ p rest, (ofText start t).stuck = some (p, rest) → Position.Denotes start t p := by
  induction start, t using Scan.ofText.induct with
  | case1 start t l rest hnext ih =>
    obtain ⟨rfl, hfits⟩ := Lexeme.next?_eq_some_iff.1 hnext
    rw [ofText_cons hfits]
    constructor
    · intro token htoken
      rcases List.mem_cons.1 htoken with rfl | htoken
      · refine ⟨⟨rest, hfits⟩, ?_⟩
        intro u c v huv
        refine ⟨u, c, v ++ rest, ?_, rfl⟩
        rw [show l.written = u ++ c :: v from huv]
        simp
      · obtain ⟨hfits', hwithin⟩ := ih.1 token htoken
        exact ⟨hfits', fun u c v huv => (hwithin u c v huv).of_behind⟩
    · intro p rest' hstuck
      exact (ih.2 p rest' hstuck).of_behind
  | case2 start t hnext =>
    have hscan : ofText start t = ⟨[], if t.isEmpty then none else some (start, t)⟩ := by
      rw [ofText]
      split
      · next heq =>
        rw [hnext] at heq
        cases heq
      · rfl
    rw [hscan]
    constructor
    · intro token htoken
      cases htoken
    · intro p rest hstuck
      cases t with
      | nil => cases hstuck
      | cons c t =>
        obtain ⟨rfl, _⟩ := Prod.mk.inj (Option.some.inj hstuck)
        exact Position.denotes_self start c t

/-- Whether `P` holds of the place that an error refers to. -/
def ReadError.At (P : Position → Prop) (e : ReadError) : Prop := ∃ p, e.source = some p ∧ P p

/-- Whether `P` holds of the places that a reading may still refer to: that
    of the last token, if a frame is open, and that of a run without a
    property. -/
structure Reading.Within (P : Position → Prop) (r : Reading) : Prop where
  last    : r.frames ≠ [] → P r.last
  unknown : ∀ e, r.unknown = some e → e.At P

namespace Reading

variable {P : Position → Prop}

theorem Within.moved {r : Reading} (h : r.Within P) {frames : List Frame} {nodes : List Node}
    {p : Position} (hp : P p) : Within P ⟨frames, nodes, p, r.unknown⟩ :=
  ⟨fun _ => hp, h.unknown⟩

/-- A token that is read, or refused, leaves a reference to one of its
    characters at most. -/
theorem within_step {r : Reading} {token : Token} (h : r.Within P) (hwithin : token.Within P)
    {rest : Text} (hfits : token.lexeme.Fits rest) :
    match r.step token with
    | .ok r' => r'.Within P
    | .error e => e.At P := by
  have hstart := hwithin.start hfits
  obtain ⟨l, p⟩ := token
  cases l with
  | gap c => exact h
  | comment body => exact h.moved hstart
  | semicolon => exact h.moved hstart
  | declaration run =>
    cases hrun : Declaration.ofRun? run (some p) with
    | some d =>
      simp only [step, hrun]
      exact h.moved hstart
    | none =>
      simp only [step, hrun]
      refine ⟨fun _ => hstart, ?_⟩
      intro e he
      cases hunknown : r.unknown with
      | some first =>
        rw [hunknown] at he
        obtain rfl : first = e := Option.some.inj he
        exact h.unknown first hunknown
      | none =>
        rw [hunknown] at he
        obtain rfl := Option.some.inj he
        exact ⟨p, rfl, hstart⟩
  | ruleStart run => exact h.moved (hwithin run '\x7b' [] rfl)
  | blockStart name params => exact h.moved (hwithin ('@' :: name ++ params) '\x7b' [] rfl)
  | statement name params => exact h.moved hstart
  | openBrace => exact ⟨p, rfl, hstart⟩
  | closeBrace =>
    obtain ⟨frames, nodes, last, unknown⟩ := r
    cases frames with
    | nil => exact ⟨p, rfl, hstart⟩
    | cons frame frames => exact h.moved hstart

theorem within_steps {r : Reading} {tokens : List Token} (h : r.Within P)
    (htokens : ∀ token ∈ tokens, (∃ rest, token.lexeme.Fits rest) ∧ token.Within P) :
    match r.steps tokens with
    | .ok r' => r'.Within P
    | .error e => e.At P := by
  induction tokens generalizing r with
  | nil => exact h
  | cons token tokens ih =>
    obtain ⟨⟨rest, hfits⟩, hwithin⟩ := htokens token (List.mem_cons_self ..)
    have hstep := within_step h hwithin hfits
    rw [steps_cons]
    cases hr : r.step token with
    | error e =>
      rw [hr] at hstep
      exact hstep
    | ok r' =>
      rw [hr] at hstep
      exact ih hstep fun token htoken => htokens token (List.mem_cons_of_mem _ htoken)

theorem at_of_finish {r : Reading} (h : r.Within P) {e : ReadError} (he : r.finish = .error e) :
    e.At P := by
  obtain ⟨frames, nodes, last, unknown⟩ := r
  cases frames with
  | cons frame frames =>
    obtain rfl := Except.error.inj he
    exact ⟨last, rfl, h.last (by simp)⟩
  | nil =>
    cases unknown with
    | none => cases he
    | some first =>
      obtain rfl : first = e := Except.error.inj he
      exact h.unknown first rfl

end Reading

/-- A text is refused with a reference to one of its characters. -/
theorem Node.at_of_ofText {source t : Text} {e : ReadError} (h : Node.ofText source t = .error e) :
    e.At (Position.Denotes (.origin source) t) := by
  obtain ⟨htokens, hstuck⟩ := Scan.denotes (.origin source) t
  have hinitial : (Reading.initial (.origin source)).Within
      (Position.Denotes (.origin source) t) := by
    constructor
    · intro hframes
      exact absurd rfl hframes
    · intro e he
      cases he
  have hsteps := Reading.within_steps hinitial htokens
  rw [Node.ofText_eq] at h
  cases hr : (Reading.initial (.origin source)).steps (Scan.ofText (.origin source) t).tokens with
  | error e' =>
    rw [hr] at h hsteps
    obtain rfl : e' = e := Except.error.inj h
    exact hsteps
  | ok r =>
    rw [hr] at h hsteps
    cases hscan : (Scan.ofText (.origin source) t).stuck with
    | none =>
      rw [hscan] at h
      exact Reading.at_of_finish hsteps h
    | some place =>
      rw [hscan] at h
      obtain rfl := Except.error.inj h
      exact ⟨place.1, rfl, hstuck place.1 place.2 hscan⟩

/-! ## The grammar -/

/-- A text that is read spells legal items. -/
theorem Node.exists_items_of_ofText {source t : Text} {nodes : List Node}
    (h : Node.ofText source t = .ok nodes) : ∃ items, Item.Spells items t := by
  rw [Node.ofText_eq] at h
  cases hr : (Reading.initial (.origin source)).steps (Scan.ofText (.origin source) t).tokens with
  | error e =>
    rw [hr] at h
    cases h
  | ok r =>
    rw [hr] at h
    cases hscan : (Scan.ofText (.origin source) t).stuck with
    | some place =>
      rw [hscan] at h
      cases h
    | none =>
      rw [hscan] at h
      -- no frame is open before the first token or behind the last one
      have hframes : r.frames = [] := by
        obtain ⟨frames, nodes, last, unknown⟩ := r
        cases frames with
        | nil => rfl
        | cons frame frames => cases h
      have hcompletes := Item.completes_of_steps hscan hr hframes
      generalize hdepth : (Reading.initial (.origin source)).frames.length = depth at hcompletes
      cases hcompletes with
      | @items items hitems => exact ⟨items, hitems, rfl⟩
      | close _ _ => cases hdepth

/-- A text is read exactly if it spells legal items with a property in each
    declaration, and then as the nodes of these items. -/
theorem Node.ofText_eq_ok_iff {source t : Text} {nodes : List Node} :
    Node.ofText source t = .ok nodes ↔ ∃ items, Item.Spells items t ∧
      (∀ d ∈ Item.runsAll (.origin source) items, Item.hasProperty d.2 = true) ∧
      Item.nodesAll (.origin source) items = nodes := by
  constructor
  · intro h
    obtain ⟨items, hlegal, rfl⟩ := Node.exists_items_of_ofText h
    rw [Node.ofText_writtenAll source hlegal] at h
    cases hunknown : Item.unknown? (Item.runsAll (.origin source) items) with
    | some e =>
      rw [hunknown] at h
      cases h
    | none =>
      rw [hunknown] at h
      exact ⟨items, ⟨hlegal, rfl⟩, Item.unknown?_eq_none_iff.1 hunknown, Except.ok.inj h⟩
  · rintro ⟨items, ⟨hlegal, rfl⟩, hproper, rfl⟩
    rw [Node.ofText_writtenAll source hlegal, Item.unknown?_eq_none_iff.2 hproper]

theorem Item.unknown?_of_first {before behind : List (Position × Text)} {p : Position}
    {run : Text} (hbefore : ∀ d ∈ before, hasProperty d.2 = true) (hrun : hasProperty run = false) :
    unknown? (before ++ (p, run) :: behind) = some (.unknownWord p run.trim) := by
  rw [unknown?_append, unknown?_eq_none_iff.2 hbefore]
  simp [unknown?, hrun]

/-- The texts that are style sheets are those that spell legal items with a
    property in each declaration, and they are read as the nodes of these
    items. Every other text is refused, with a reference to one of its
    characters; and if all that is wrong with it is that declarations have no
    property, to the first of these. -/
theorem Node.ofText_grammar (source t : Text) :
    (∀ nodes, Node.ofText source t = .ok nodes ↔ ∃ items, Item.Spells items t ∧
      (∀ d ∈ Item.runsAll (.origin source) items, Item.hasProperty d.2 = true) ∧
      Item.nodesAll (.origin source) items = nodes) ∧
    (∀ e, Node.ofText source t = .error e → e.At (Position.Denotes (.origin source) t)) ∧
    ∀ items before p run behind, Item.Spells items t →
      Item.runsAll (.origin source) items = before ++ (p, run) :: behind →
      (∀ d ∈ before, Item.hasProperty d.2 = true) → Item.hasProperty run = false →
      Node.ofText source t = .error (.unknownWord p run.trim) := by
  refine ⟨fun _ => Node.ofText_eq_ok_iff, fun _ => Node.at_of_ofText, ?_⟩
  rintro items before p run behind ⟨hlegal, rfl⟩ hruns hbefore hrun
  rw [Node.ofText_writtenAll source hlegal, hruns, Item.unknown?_of_first hbefore hrun]

/-- The first run without a property stands inside a rule inside a block. -/
theorem Node.ofText_grammar_nested :
    Node.ofText [] "a:1;@m x\x7bb\x7bc\x7dd:2\x7d".toList =
      .error (.unknownWord ⟨1, 12, []⟩ "c".toList) ∧
    ReadError.At (Position.Denotes (.origin []) "a:1;@m x\x7bb\x7bc\x7dd:2\x7d".toList)
      (.unknownWord ⟨1, 12, []⟩ "c".toList) := by
  have hgrammar := Node.ofText_grammar [] "a:1;@m x\x7bb\x7bc\x7dd:2\x7d".toList
  have hspells : Item.Spells
      [.declaration ['a', ':', '1'], .semicolon, .block ['m'] [' ', 'x']
        [.rule ['b'] [.declaration ['c']], .declaration ['d', ':', '2']]]
      "a:1;@m x\x7bb\x7bc\x7dd:2\x7d".toList := by
    have hhead : IsAtHead ['m'] [' ', 'x'] := by decide
    have ha : IsRun ['a', ':', '1'] := by decide
    have hb : IsRun ['b'] := by decide
    have hc : IsRun ['c'] := by decide
    have hd : IsRun ['d', ':', '2'] := by decide
    refine ⟨?_, rfl⟩
    simp [Item.LegalAll, Item.Legal, Item.isOpen, hhead, ha, hb, hc, hd]
  have herror := hgrammar.2.2 _ [(⟨1, 1, []⟩, ['a', ':', '1'])] ⟨1, 12, []⟩ ['c']
    [(⟨1, 14, []⟩, ['d', ':', '2'])] hspells rfl (by decide) rfl
  exact ⟨herror, hgrammar.2.1 _ herror⟩

end StyleSlots
