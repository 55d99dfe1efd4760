import StyleSlots.Proofs.StyleSheet
import StyleSlots.Proofs.Trace.Unplaced

/-! # Texts joined by a semicolon

    - **Moving**: items mean the same nodes wherever they stand, but for the
      positions, and their declarations have a property everywhere.
    - **Joining**: the last item of a text may be a declaration without an
      end of its own. It is left as it is by a semicolon behind it, and so
      is every other item.
    - **Main statement**: `compile_joined`, a text with a semicolon and a
      second text behind it is read as both trees one behind the other, and
      compiled as both of them are. -/

namespace StyleSlots

namespace Item

open Node

/-! ## Moving items -/

mutual

theorem map_snd_runs : ∀ (item : Item) (p q : Position),
    (item.runs p).map Prod.snd = (item.runs q).map Prod.snd
  | gap _, _, _ => rfl
  | semicolon, _, _ => rfl
  | comment _, _, _ => rfl
  | statement _ _, _, _ => rfl
  | declaration _, _, _ => rfl
  | rule _ items, _, _ => map_snd_runsAll items _ _
  | block _ _ items, _, _ => map_snd_runsAll items _ _

theorem map_snd_runsAll : ∀ (items : List Item) (p q : Position),
    (runsAll p items).map Prod.snd = (runsAll q items).map Prod.snd
  | [], _, _ => rfl
  | item :: more, p, q => by
    rw [runsAll, runsAll, List.map_append, List.map_append, map_snd_runs item p q,
      map_snd_runsAll more (p.behind item.written) (q.behind item.written)]

end

mutual

theorem unplacedAll_nodes : ∀ (item : Item) (p q : Position),
    unplacedAll (item.nodes p) = unplacedAll (item.nodes q)
  | gap _, _, _ => rfl
  | semicolon, _, _ => rfl
  | comment _, _, _ => rfl
  | statement _ _, _, _ => rfl
  | declaration run, p, q => by
    rw [nodes, nodes, Declaration.ofRun?_eq_map run (some p),
      Declaration.ofRun?_eq_map run (some q)]
    cases Declaration.ofRun? run none <;> rfl
  | rule run items, p, q => by
    have hinner := unplacedAll_nodesAll items (p.behind (run ++ ['\x7b']))
      (q.behind (run ++ ['\x7b']))
    simp only [nodes, unplacedAll, unplaced, hinner]
  | block name params items, p, q => by
    have hinner := unplacedAll_nodesAll items (p.behind ('@' :: name ++ params ++ ['\x7b']))
      (q.behind ('@' :: name ++ params ++ ['\x7b']))
    simp only [nodes, unplacedAll, unplaced, hinner]

/-- Items mean the same nodes everywhere. -/
theorem unplacedAll_nodesAll : ∀ (items : List Item) (p q : Position),
    unplacedAll (nodesAll p items) = unplacedAll (nodesAll q items)
  | [], _, _ => rfl
  | item :: more, p, q => by
    rw [nodesAll, nodesAll, unplacedAll_append, unplacedAll_append, unplacedAll_nodes item p q,
      unplacedAll_nodesAll more (p.behind item.written) (q.behind item.written)]

end

/-- A text that is read expresses its tree. -/
theorem express_of_ofText {source t : Text} {nodes : List Node}
    (h : Node.ofText source t = .ok nodes) : ∃ items, Express items t nodes := by
  obtain ⟨items, ⟨hlegal, hwritten⟩, hproper, hnodes⟩ := Node.ofText_eq_ok_iff.1 h
  refine ⟨items, hlegal, hwritten, ?_, ?_⟩
  -- what is known at the start of the text is carried over to `p`
  · intro p d hd
    have hmem : d.2 ∈ (runsAll (.origin source) items).map Prod.snd := by
      rw [map_snd_runsAll items _ p]
      exact List.mem_map_of_mem hd
    obtain ⟨e, he, hde⟩ := List.mem_map.1 hmem
    rw [← hde]
    exact hproper e he
  · intro p
    have hsame : unplacedAll (nodesAll p items) = unplacedAll nodes := by
      rw [← hnodes]
      exact unplacedAll_nodesAll items p _
    -- to be the same is to be equal without positions, as there are no foreign data
    have hnative : isNativeAll (nodesAll p items) = true := by
      rw [← isNativeAll_unplacedAll, hsame, isNativeAll_unplacedAll]
      exact isNativeAll_of_ofText h
    exact (agreesAll_iff_unplacedAll_eq _ _ hnative).2 hsame

/-! ## Joining items -/

theorem writtenAll_append (as bs : List Item) :
    writtenAll (as ++ bs) = writtenAll as ++ writtenAll bs := by
  induction as with
  | nil => rfl
  | cons a as ih => rw [List.cons_append, writtenAll, ih, writtenAll, List.append_assoc]

theorem runsAll_append (p : Position) (as bs : List Item) :
    runsAll p (as ++ bs) = runsAll p as ++ runsAll (p.behind (writtenAll as)) bs := by
  induction as generalizing p with
  | nil => rfl
  | cons a as ih =>
    rw [List.cons_append, runsAll, ih, runsAll, writtenAll, Position.behind_append,
      List.append_assoc]

theorem nodesAll_append (p : Position) (as bs : List Item) :
    nodesAll p (as ++ bs) = nodesAll p as ++ nodesAll (p.behind (writtenAll as)) bs := by
  induction as generalizing p with
  | nil => rfl
  | cons a as ih =>
    rw [List.cons_append, nodesAll, ih, nodesAll, writtenAll, Position.behind_append,
      List.append_assoc]

/-- A semicolon ends whatever item stands in front of it. -/
theorem legalAll_append {as bs : List Item} (ha : LegalAll as) (hb : LegalAll bs)
    (hjoint : ∀ next ∈ bs.head?, next = semicolon) : LegalAll (as ++ bs) := by
  induction as with
  | nil => exact hb
  | cons a as ih =>
    refine ⟨ha.1, ?_, ih ha.2.2⟩
    intro hopen next hnext
    -- behind the last item stands the first one of the second sequence
    cases as with
    | nil => exact hjoint next hnext
    | cons first as => exact ha.2.1 hopen next hnext

theorem Express.append {as bs : List Item} {s t : Text} {ms ns : List Node}
    (ha : Express as s ms) (hb : Express bs t ns) (hjoint : ∀ next ∈ bs.head?, next = semicolon) :
    Express (as ++ bs) (s ++ t) (ms ++ ns) where
  legal := legalAll_append ha.legal hb.legal hjoint
  written := by rw [writtenAll_append, ha.written, hb.written]
  proper := by
    intro p d hd
    rw [runsAll_append] at hd
    rcases List.mem_append.1 hd with hd | hd
    · exact ha.proper p d hd
    · exact hb.proper _ d hd
  meant := by
    intro p
    rw [nodesAll_append]
    exact agreesAll_append (ha.meant p) (hb.meant _)

end Item

/-! ## Reading -/

/-- Texts that are read can be joined by a semicolon. -/
theorem Node.ofText_joined {source source' s t : Text} {ms ns : List Node}
    (hs : Node.ofText source s = .ok ms) (ht : Node.ofText source' t = .ok ns)
    (joinedSource : Text) : ∃ joined, Node.ofText joinedSource (s ++ ';' :: t) = .ok joined ∧
      unplacedAll joined = unplacedAll (ms ++ ns) := by
  obtain ⟨as, has⟩ := Item.express_of_ofText hs
  obtain ⟨bs, hbs⟩ := Item.express_of_ofText ht
  have hsemicolon := Item.express_semicolon.cons hbs (by simp [Item.isOpen])
  have hjoined := has.append hsemicolon (by simp)
  obtain ⟨joined, hread, hagrees⟩ := Item.exists_ofText_of_express hjoined joinedSource
  refine ⟨joined, hread, ?_⟩
  exact (agreesAll_iff_unplacedAll_eq _ _ (isNativeAll_of_ofText hread)).1 hagrees

/-! ## Compiling -/

namespace Compiler

variable {c : Compiler} {ms ns joined : List Node}

/-- A tree in which two others stand one behind the other has their traces one
    behind the other. -/
theorem trace_joined (hplain : c.shorthandFirst = false)
    (h : Node.unplacedAll joined = Node.unplacedAll (ms ++ ns)) :
    (c.trace joined).unplaced = ((c.trace ms).andThen (c.trace ns)).unplaced := by
  have htrace : ∀ nodes, c.trace nodes = .ofTree c.scheme nodes := by
    intro nodes
    simp [trace, prepare, hplain]
  rw [htrace, htrace, htrace, ← Trace.ofTree_unplacedAll, h, Trace.ofTree_unplacedAll,
    Trace.ofTree_append]

/-- Two texts with a semicolon between them are read as the nodes of the first
    text and then those of the second, but for their positions. If both are
    compiled with shorthands left where they are, and neither is refused, then
    so is the joined text: with the rules, names and carried nodes of the
    first text and then those of the second. -/
theorem compile_joined {source source' s t : Text} (hs : Node.ofText source s = .ok ms)
    (ht : Node.ofText source' t = .ok ns) (joinedSource : Text) :
    ∃ joined, Node.ofText joinedSource (s ++ ';' :: t) = .ok joined ∧
      Node.unplacedAll joined = Node.unplacedAll (ms ++ ns) ∧
      ∀ c : Compiler, c.shorthandFirst = false → ∀ rs rs',
        (c.compile ms).2.rules = .ok rs → (c.compile ns).2.rules = .ok rs' →
        ∃ rules names names', (c.compile joined).2.rules = .ok rules ∧
          rules.map AtomicRule.unplaced = (rs ++ rs').map AtomicRule.unplaced ∧
          (c.compile ms).1.names = c.names ++ names ∧
          (c.compile ns).1.names = c.names ++ names' ∧
          (c.compile joined).1.names = c.names ++ (names ++ names') ∧
          Node.unplacedAll (c.compile joined).1.carried =
            Node.unplacedAll ((c.compile ms).1.carried ++ (c.compile ns).1.carried) := by
  obtain ⟨joined, hread, hsame⟩ := Node.ofText_joined hs ht joinedSource
  refine ⟨joined, hread, hsame, ?_⟩
  intro c hplain rs rs' hrs hrs'
  obtain ⟨hrefusal, rfl⟩ := compile_rules_eq_ok_iff.1 hrs
  obtain ⟨hrefusal', rfl⟩ := compile_rules_eq_ok_iff.1 hrs'
  have htrace := trace_joined hplain hsame
  -- neither is refused, so what happens is what happens to the one and to the other
  have hboth : (c.trace ms).andThen (c.trace ns) =
      .ofEvents ((c.trace ms).events ++ (c.trace ns).events) := by
    simp [Trace.andThen, hrefusal, hrefusal', Trace.ofEvents]
  rw [hboth] at htrace
  have haccepted : (c.trace joined).refusal = none := by
    rw [← Trace.refusal_unplaced_eq_none_iff, htrace]
    rfl
  have hrules : (c.trace joined).rules.map AtomicRule.unplaced =
      ((c.trace ms).rules ++ (c.trace ns).rules).map AtomicRule.unplaced := by
    rw [← Trace.rules_unplaced, htrace, Trace.rules_unplaced]
    exact congrArg _ List.filterMap_append
  have hnames : (c.trace joined).names = (c.trace ms).names ++ (c.trace ns).names := by
    rw [← Trace.names_unplaced, htrace, Trace.names_unplaced]
    exact (congrArg _ List.filterMap_append).trans List.map_append
  have hcarried : Node.unplacedAll (c.trace joined).carried =
      Node.unplacedAll ((c.trace ms).carried ++ (c.trace ns).carried) := by
    rw [← Trace.carried_unplaced, htrace, Trace.carried_unplaced]
    exact congrArg _ List.filterMap_append
  exact ⟨_, _, _, compile_rules_eq_ok_iff.2 ⟨haccepted, rfl⟩, hrules, rfl, rfl,
    congrArg (c.names ++ ·) hnames, hcarried⟩

/-- A page, a rule inside a block and two declarations, of which the last one
    has no end of its own. -/
theorem compile_joined_pages :
    Node.ofText [] pageText = .ok pageTree ∧
    ∃ joined rs, (freshCompiler.compile pageTree).2.rules = .ok rs ∧ rs.length = 4 ∧
      Node.ofText [] (pageText ++ ';' :: pageText) = .ok joined ∧
      Node.unplacedAll joined = Node.unplacedAll (pageTree ++ pageTree) ∧
      ∃ rules, (freshCompiler.compile joined).2.rules = .ok rules ∧
        rules.map AtomicRule.unplaced = (rs ++ rs).map AtomicRule.unplaced := by
  have hok : (freshCompiler.compile pageTree).2.rules = .ok (freshCompiler.trace pageTree).rules :=
    compile_rules_eq_ok_iff.2 ⟨rfl, rfl⟩
  obtain ⟨joined, hread, hsame, hcompiled⟩ := compile_joined ofText_pageText ofText_pageText []
  obtain ⟨rules, _, _, hrules, heq, _⟩ := hcompiled freshCompiler rfl _ _ hok hok
  exact ⟨ofText_pageText, joined, _, hok, rfl, hread, hsame, rules, hrules, heq⟩

end Compiler

end StyleSlots
