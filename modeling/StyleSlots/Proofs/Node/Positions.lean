import Mathlib.Algebra.Group.Int.Defs
import Mathlib.Data.List.Induction
import StyleSlots.Proofs.Node.Places
import StyleSlots.Proofs.Node.RoundTrip

/-! # Positions in a text that has been read

    - **Counting**: the position behind a text is worked out from its line
      feeds and from what stands behind the last of them. No other
      character starts a line.
    - **Construct**: what the text reads from the place on at which a node
      starts.
    - **Document order**: a later place of the tree is a later place of the
      text.
    - **Main statement**: `starts_of_ofText`, each node of a tree that has
      been read names the place of its construct in the text, and these
      places increase in document order. -/

namespace StyleSlots

/-! ## Counting -/

theorem ReadError.lastLine_concat (t : Text) (c : Char) :
    lastLine (t ++ [c]) = if c = '\n' then [] else lastLine t ++ [c] := by
  by_cases hc : c = '\n' <;> simp [lastLine, hc]

namespace Position

/-- The position behind a text in a named source: one line more than there
    are line feeds, and one column more than there are characters behind the
    last line feed. -/
def counted (source before : Text) : Position :=
  ⟨1 + before.count '\n', 1 + (ReadError.lastLine before).length, source⟩

/-- Going on from one character to the next is counting. -/
theorem origin_behind (source before : Text) :
    (origin source).behind before = counted source before := by
  -- from the back, since it is the last line feed that columns are counted from
  induction before using List.reverseRecOn with
  | nil => rfl
  | append_singleton before c ih =>
    rw [behind_append, ih]
    by_cases hc : c = '\n'
    · subst hc
      simp [behind, next, counted, ReadError.lastLine_concat, add_assoc]
    · simp [behind, next, counted, ReadError.lastLine_concat, hc, add_assoc]

/-- Whether a position comes before another one of the same source. -/
def Before (p q : Position) : Prop := p.line < q.line ∨ p.line = q.line ∧ p.column < q.column

theorem Before.trans {p q r : Position} (hpq : p.Before q) (hqr : q.Before r) : p.Before r := by
  unfold Before at *
  omega

theorem before_next (p : Position) (c : Char) : p.Before (p.next c) := by
  unfold Before next
  split
  · exact .inl (Int.lt_succ p.line)
  · exact .inr ⟨rfl, Int.lt_succ p.column⟩

/-- Any text leads on. -/
theorem before_behind (p : Position) {t : Text} (h : t ≠ []) : p.Before (p.behind t) := by
  induction t generalizing p with
  | nil => exact absurd rfl h
  | cons c t ih =>
    have hnext := before_next p c
    by_cases ht : t = []
    · rwa [ht]
    · exact hnext.trans (ih (p.next c) ht)

/-- A character of a text comes before every character of what follows it. -/
theorem before_of_denotes {p q r : Position} {s t : Text} (hq : Denotes p s q)
    (hr : Denotes (p.behind s) t r) : q.Before r := by
  obtain ⟨before, c, behind, rfl, rfl⟩ := hq
  obtain ⟨before', _, _, _, rfl⟩ := hr
  -- between the two stand at least `c` and what follows it in its text
  have hbehind : (p.behind (before ++ c :: behind)).behind before' =
      (p.behind before).behind (c :: behind ++ before') := by
    rw [behind_append, behind_append]
  rw [hbehind]
  exact before_behind _ (by simp)

end Position

/-! ## Constructs -/

namespace Node

/-- Where a node says that it starts. -/
def start? : Node → Option Position
  | declaration d => d.source
  | rule _ _ source => source
  | block _ _ source => source
  | comment _ source => source
  | other _ _ source => source
  | foreign _ => none

/-- Whether a text starts as a node that is read from there. -/
def Opens (t : Text) : Node → Prop
  | declaration d => d.prop ≠ [] ∧ d.prop <+: t
  | rule selectors _ _ => ∃ run, IsRun run ∧ selectors = Selector.split run ∧ run ++ ['\x7b'] <+: t
  | block head _ _ => '@' :: head.name <+: t
  | comment _ _ => ['/', '*'] <+: t
  | other _ text _ => text ≠ [] ∧ text <+: t
  | foreign _ => False

/-- Whether a node starts before another one. -/
def StartsBefore (m n : Node) : Prop :=
  ∃ p q, m.start? = some p ∧ n.start? = some q ∧ p.Before q

end Node

namespace Item

open Node

variable {p : Position} {n : Node}

/-- A node starts where its item starts. -/
theorem start?_of_mem_nodes {item : Item} (h : n ∈ item.nodes p) : n.start? = some p := by
  cases item with
  | gap c => cases h
  | semicolon => cases h
  | comment body =>
    obtain rfl := List.mem_singleton.1 h
    rfl
  | statement name params =>
    obtain rfl := List.mem_singleton.1 h
    rfl
  | declaration run =>
    obtain ⟨d, hd, rfl⟩ := List.mem_map.1 h
    exact Declaration.source_of_ofRun? (Option.mem_toList.1 hd)
  | rule run items =>
    obtain rfl := List.mem_singleton.1 h
    rfl
  | block name params items =>
    obtain rfl := List.mem_singleton.1 h
    rfl

/-- A node is read where its construct stands, whatever follows. -/
theorem opens_of_mem_nodes {item : Item} (hlegal : item.Legal) (h : n ∈ item.nodes p)
    (behind : Text) : n.Opens (item.written ++ behind) := by
  cases item with
  | gap c => cases h
  | semicolon => cases h
  | comment body =>
    obtain rfl := List.mem_singleton.1 h
    exact ⟨body ++ commentEnd ++ behind, by simp [written]⟩
  | statement name params =>
    obtain rfl := List.mem_singleton.1 h
    exact ⟨by simp, List.prefix_append _ _⟩
  | declaration run =>
    obtain ⟨d, hd, rfl⟩ := List.mem_map.1 h
    obtain ⟨hne, hprefix⟩ :=
      Declaration.prop_prefix_of_ofRun? hlegal (Option.mem_toList.1 hd)
    exact ⟨hne, hprefix.trans (List.prefix_append _ _)⟩
  | rule run items =>
    obtain rfl := List.mem_singleton.1 h
    exact ⟨run, hlegal.1, rfl, writtenAll items ++ '\x7d' :: behind, by simp [written]⟩
  | block name params items =>
    obtain rfl := List.mem_singleton.1 h
    exact ⟨params ++ '\x7b' :: writtenAll items ++ '\x7d' :: behind, by simp [written]⟩

/-- A node that is meant in a text starts at one of its characters. -/
theorem MeantIn.denotes {t : Text} (h : MeantIn p t n) :
    ∃ q, n.start? = some q ∧ Position.Denotes p t q := by
  obtain ⟨before, item, behind, rfl, hlegal, hn⟩ := h
  obtain ⟨c, s, hwritten⟩ := List.exists_cons_of_ne_nil (written_ne_nil hlegal)
  refine ⟨_, start?_of_mem_nodes hn, before, c, s ++ behind, ?_, rfl⟩
  rw [hwritten]
  simp

end Item

/-! ## Document order -/

namespace Node

/-- The nodes of a tree in document order. -/
def outline (nodes : List Node) : List Node := (places nodes).map Place.node

@[simp] theorem outline_nil : outline [] = [] := rfl

/-- Indices go into paths and not into nodes. -/
theorem map_node_placesFrom (i : Nat) (nodes : List Node) :
    (placesFrom i nodes).map Place.node =
      nodes.flatMap fun node => node :: outline node.inside := by
  induction nodes generalizing i with
  | nil => rfl
  | cons node more ih =>
    rw [placesFrom, placesAt_eq, List.map_append, ih, List.map_cons, List.map_map,
      List.flatMap_cons]
    rfl

theorem outline_eq (nodes : List Node) :
    outline nodes = nodes.flatMap fun node => node :: outline node.inside :=
  map_node_placesFrom 0 nodes

theorem outline_cons (node : Node) (more : List Node) :
    outline (node :: more) = node :: (outline node.inside ++ outline more) := by
  rw [outline_eq, List.flatMap_cons, ← outline_eq, List.cons_append]

theorem outline_append (ms ns : List Node) : outline (ms ++ ns) = outline ms ++ outline ns := by
  rw [outline_eq, List.flatMap_append, ← outline_eq, ← outline_eq]

theorem occurs_of_mem_outline {n : Node} {nodes : List Node} (h : n ∈ outline nodes) :
    Occurs n nodes := by
  obtain ⟨p, hp, rfl⟩ := List.mem_map.1 h
  exact occurs_of_in (mem_places_iff.1 hp)

end Node

namespace Item

open Node

/-- What stands in two texts, one behind the other, starts in this order. -/
theorem startsBefore_of_denotes {p : Position} {s t : Text} {m n : Node}
    (hm : MeantIn p s m) (hn : MeantIn (p.behind s) t n) : m.StartsBefore n := by
  obtain ⟨q, hq, hdenotes⟩ := hm.denotes
  obtain ⟨r, hr, hdenotes'⟩ := hn.denotes
  exact ⟨q, r, hq, hr, Position.before_of_denotes hdenotes hdenotes'⟩

/-- A node starts before everything between its braces. -/
theorem pairwise_outline_nest {p : Position} {run : Text} {items : List Item} {n : Node}
    (hlegal : LegalAll items) (hstart : n.start? = some p)
    (hinside : n.inside = nodesAll (p.behind (run ++ ['\x7b'])) items)
    (h : (outline (nodesAll (p.behind (run ++ ['\x7b'])) items)).Pairwise StartsBefore) :
    (outline [n]).Pairwise StartsBefore := by
  rw [outline_cons, hinside, List.pairwise_cons]
  refine ⟨?_, by simpa using h⟩
  intro m hm
  have hocc : Occurs m (nodesAll (p.behind (run ++ ['\x7b'])) items) :=
    occurs_of_mem_outline (by simpa using hm)
  obtain ⟨q, hq, hdenotes⟩ := (meantIn_of_occurs_all items _ m hlegal hocc).denotes
  refine ⟨p, q, hstart, hq, ?_⟩
  -- the head is not empty, if only for its brace
  obtain ⟨c, s, hrun⟩ := List.exists_cons_of_ne_nil (show run ++ ['\x7b'] ≠ [] by simp)
  rw [hrun] at hdenotes
  exact Position.before_of_denotes (Position.denotes_self p c s) hdenotes

mutual

theorem pairwise_outline : ∀ (item : Item) (p : Position), item.Legal →
    (outline (item.nodes p)).Pairwise StartsBefore
  | gap _, _, _ => .nil
  | semicolon, _, _ => .nil
  | comment _, _, _ => List.pairwise_singleton ..
  | statement _ _, _, _ => List.pairwise_singleton ..
  | declaration run, p, _ => by
    -- one node, or none if the run is no declaration
    rw [nodes]
    cases Declaration.ofRun? run (some p) with
    | none => exact .nil
    | some d => exact List.pairwise_singleton ..
  | rule run items, p, h => by
    have hinner := pairwise_outline_all items (p.behind (run ++ ['\x7b'])) h.2
    exact pairwise_outline_nest h.2 rfl rfl hinner
  | block name params items, p, h => by
    have hinner := pairwise_outline_all items
      (p.behind ('@' :: name ++ params ++ ['\x7b'])) h.2
    exact pairwise_outline_nest h.2 rfl rfl hinner

/-- The nodes of items start one behind the other, in document order. -/
theorem pairwise_outline_all : ∀ (items : List Item) (p : Position), LegalAll items →
    (outline (nodesAll p items)).Pairwise StartsBefore
  | [], _, _ => .nil
  | item :: more, p, h => by
    rw [nodesAll, outline_append, List.pairwise_append]
    refine ⟨pairwise_outline item p h.1, pairwise_outline_all more _ h.2.2, ?_⟩
    -- whatever is in the item stands in its text, and the rest behind that
    intro m hm n hn
    have hfirst := meantIn_of_occurs item p m h.1 (occurs_of_mem_outline hm)
    have hmore := meantIn_of_occurs_all more _ n h.2.2 (occurs_of_mem_outline hn)
    exact startsBefore_of_denotes hfirst hmore

end

end Item

/-! ## A text that has been read -/

namespace Node

variable {source t : Text} {nodes : List Node}

/-- A later place of the tree is a later place of the text. -/
theorem startsBefore_of_path_lt (h : Node.ofText source t = .ok nodes) {p q : Place}
    (hp : p.In nodes) (hq : q.In nodes) (hpath : p.path < q.path) :
    p.node.StartsBefore q.node := by
  obtain ⟨items, ⟨hlegal, rfl⟩, _, rfl⟩ := Node.ofText_eq_ok_iff.1 h
  have hstarts := List.pairwise_map.1 (Item.pairwise_outline_all items (.origin source) hlegal)
  have hlisted := documentOrder_places (Item.nodesAll (.origin source) items)
  -- of two places the listing has the one with the smaller path first
  have hall : ∀ ⦃a⦄, a ∈ places (Item.nodesAll (.origin source) items) →
      ∀ ⦃b⦄, b ∈ places (Item.nodesAll (.origin source) items) →
      a.path < b.path → a.node.StartsBefore b.node := by
    refine List.Pairwise.forall_of_forall_of_flip ?_ (hstarts.imp ?_) (hlisted.ordered.imp ?_)
    · intro a _ hlt
      exact absurd hlt (List.lt_irrefl _)
    · intro a b hstart _
      exact hstart
    · intro a b hlt hgt
      exact absurd hgt (List.lt_asymm hlt)
  exact hall ((hlisted.mem_iff p).2 hp) ((hlisted.mem_iff q).2 hq) hpath

/-- Each node of a tree that has been read names the place in the text where
    its construct stands. In document order these places increase. -/
theorem starts_of_ofText (h : Node.ofText source t = .ok nodes) :
    (∀ p : Place, p.In nodes → ∃ before rest, t = before ++ rest ∧
      p.node.start? = some (Position.counted source before) ∧ p.node.Opens rest) ∧
    ∀ p q : Place, p.In nodes → q.In nodes → p.path < q.path → p.node.StartsBefore q.node := by
  refine ⟨?_, fun p q => startsBefore_of_path_lt h⟩
  intro p hp
  obtain ⟨before, item, behind, ht, hlegal, hn⟩ := meantIn_of_ofText h (occurs_of_in hp)
  refine ⟨before, item.written ++ behind, ?_, ?_, Item.opens_of_mem_nodes hlegal hn behind⟩
  · rw [ht, List.append_assoc]
  · rw [← Position.origin_behind]
    exact Item.start?_of_mem_nodes hn

/-- A comment over two lines, and a block in which a line ends in a carriage
    return and a line feed. -/
def linesText : Text := "/*\n*/@m x\x7b\r\n b\x7bc :2\x7d\x7d".toList

/-- The declaration of `linesText`. -/
def linesDeclaration : Node := .declaration ⟨['c'], ['2'], false, some ⟨3, 4, []⟩⟩

/-- The rule of `linesText`. -/
def linesRule : Node := .rule [['b']] [linesDeclaration] (some ⟨3, 2, []⟩)

/-- The block of `linesText`. -/
def linesBlock : Node := .block ⟨['m'], ['x']⟩ [linesRule] (some ⟨2, 3, []⟩)

theorem ofText_linesText :
    Node.ofText [] linesText = .ok [.comment [] (some ⟨1, 1, []⟩), linesBlock] := by
  have hspells : Item.Spells
      [.comment ['\n'], .block ['m'] [' ', 'x'] [.gap '\r', .gap '\n', .gap ' ',
        .rule ['b'] [.declaration "c :2".toList]]] linesText := by
    have hcomment : ¬ commentEnd <:+: ['\n'] := by decide
    have hhead : IsAtHead ['m'] [' ', 'x'] := by decide
    have hrule : IsRun ['b'] := by decide
    have hdeclaration : IsRun "c :2".toList := by decide
    have hgaps : isGap '\r' = true ∧ isGap '\n' = true ∧ isGap ' ' = true := by decide
    refine ⟨?_, rfl⟩
    simp only [Item.LegalAll, Item.Legal, Item.isOpen, hcomment, hhead, hrule, hdeclaration, hgaps]
    simp
  exact Node.ofText_eq_ok_iff.2 ⟨_, hspells, by decide, rfl⟩

theorem starts_of_ofText_lines :
    Node.ofText [] linesText = .ok [.comment [] (some ⟨1, 1, []⟩), linesBlock] ∧
    (∃ before rest, linesText = before ++ rest ∧
      linesDeclaration.start? = some (Position.counted [] before) ∧
      linesDeclaration.Opens rest) ∧
    linesRule.StartsBefore linesDeclaration := by
  have hrule : Place.In [.comment [] (some ⟨1, 1, []⟩), linesBlock]
      ((Place.here 0 linesRule).below [1] [linesBlock]) := .inside rfl (.here rfl)
  have hdeclaration : Place.In [.comment [] (some ⟨1, 1, []⟩), linesBlock]
      (((Place.here 0 linesDeclaration).below [0] [linesRule]).below [1] [linesBlock]) :=
    .inside rfl (.inside rfl (.here rfl))
  obtain ⟨hstarts, hordered⟩ := starts_of_ofText ofText_linesText
  exact ⟨ofText_linesText, hstarts _ hdeclaration, hordered _ _ hrule hdeclaration (by decide)⟩

end Node

end StyleSlots
