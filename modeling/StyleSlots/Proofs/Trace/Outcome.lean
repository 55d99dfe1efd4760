import StyleSlots.Proofs.CompiledNames
import StyleSlots.Proofs.Trace.Made

/-! # What a compilation leaves behind

    Rules, class names, carried nodes and warnings are all read off the
    places of a tree.

    - **Fates**: a declaration is made into rules, or it is carried along
      inside a node, or it is dropped with a block, of which a warning tells.
    - **Refusal**: a compilation is refused at the first nested rule. What
      the places before it have brought about stays.
    - **Main statements**: `declarations_accounted_for`, every declaration of
      a tree that is compiled meets exactly one of the fates, and there are
      no other rules, carried nodes and warnings;
      `compile_refused_iff_nested`, when a tree is refused, and what has been
      seen of it by then. -/

namespace StyleSlots

/-- Whether an entry of the log is a warning. -/
def LogEntry.isWarning (entry : LogEntry) : Bool := entry.level = .warning

namespace Place

variable {scheme : Scheme}

/-! ## Effects of places -/

/-- The warning about a block that is left out. -/
def warning (p : Place) : LogEntry where
  level   := .warning
  message := "Dropping ".toList ++ p.node.head?.elim [] AtRule.prelude ++
    " nested inside rule ".toList ++ (Selector.joinList p.selectors).quoted ++
    "; hoist it out of the rule first".toList

theorem carried_events (p : Place) : (p.events scheme).filterMap Event.carried? =
    if p.carried scheme = true then [p.node] else [] := by
  cases hnode : p.node with
  | declaration d =>
    have hcarried : p.carried scheme = false := by simp [carried, hnode, Node.isCarried]
    by_cases hmade : p.made scheme = true
    · simp [events, hnode, hmade, hcarried, List.filterMap_map, Function.comp_def, Event.carried?]
    · simp [events, hnode, hmade, hcarried]
  | _ =>
    simp only [events, hnode]
    grind [Event.carried?, Node.isCarried, carried]

/-- No place is both dropped and at the top level. -/
theorem not_carried_of_dropped {p : Place} (h : p.dropped scheme = true) :
    p.carried scheme = false := by
  rw [dropped, Bool.and_eq_true] at h
  obtain ⟨front, rule, haround, -⟩ := exists_of_opensRule h.2
  simp [carried, atTop, haround]

theorem warnings_events (p : Place) :
    ((p.events scheme).filterMap Event.entry?).filter LogEntry.isWarning =
      if p.dropped scheme = true then [p.warning] else [] := by
  cases hnode : p.node with
  | declaration d =>
    have hdropped : p.dropped scheme = false := by simp [dropped, hnode, Node.isBlock]
    by_cases hmade : p.made scheme = true
    · simp [events, hnode, hmade, hdropped, List.filterMap_map, Function.comp_def, Event.entry?]
    · simp [events, hnode, hmade, hdropped]
  | block head nodes source =>
    by_cases hdropped : p.dropped scheme = true
    · simp [events, hnode, hdropped, not_carried_of_dropped hdropped, Event.entry?,
        LogEntry.isWarning, warning, Node.head?]
    · by_cases hcarried : p.carried scheme = true <;>
        simp [events, hnode, hdropped, hcarried, Event.entry?, LogEntry.isWarning]
  | _ =>
    have hdropped : p.dropped scheme = false := by simp [dropped, hnode, Node.isBlock]
    simp only [events, hnode, hdropped]
    grind [Event.entry?, LogEntry.isWarning]

/-! ## Fates -/

/-- What may become of a declaration. -/
inductive Fate where
  /-- Atomic rules are made of it. -/
  | made
  /-- It goes into the style sheet inside a node that is carried along. -/
  | carried
  /-- It is left out with a block around it. -/
  | dropped

/-- Whether a declaration at a place of a tree meets a fate. -/
def Meets (scheme : Scheme) (nodes : List Node) (p : Place) : Fate → Prop
  | .made => p.made scheme = true
  | .carried => ∃ q : Place, q.In nodes ∧ q.carried scheme = true ∧ p.Inside q
  | .dropped => ∃ q : Place, q.In nodes ∧ q.dropped scheme = true ∧ p.Inside q

/-- Nodes lead to a scope, or there is an outermost one that does not. -/
theorem opensScope_or_exists (scheme : Scheme) (around : List Node) :
    opensScope scheme around = true ∨ ∃ before outer after,
      around = before ++ outer :: after ∧ opensScope scheme before = true ∧
        opensScope scheme (before ++ [outer]) = false := by
  induction around using List.reverseRecOn with
  | nil => exact .inl rfl
  | append_singleton around node ih =>
    rcases ih with hscope | ⟨before, outer, after, rfl, hbefore, houter⟩
    · by_cases hnode : opensScope scheme (around ++ [node]) = true
      · exact .inl hnode
      · exact .inr ⟨around, node, [], rfl, hscope, by simpa using hnode⟩
    · exact .inr ⟨before, outer, after ++ [node], by simp, hbefore, houter⟩

/-- Only rules and blocks have something inside them. -/
theorem isRule_or_isBlock_of_inside {p q : Place} (h : p.Inside q) :
    q.node.isRule = true ∨ q.node.isBlock = true := by
  obtain ⟨inner, hinner, -⟩ := h
  cases hnode : q.node with
  | rule selectors nodes source => exact .inl rfl
  | block head nodes source => exact .inr rfl
  | _ =>
    rw [hnode] at hinner
    have hmem := mem_places_iff.2 hinner
    cases hmem

/-- Nothing happens inside a node that is carried along. -/
theorem shut_of_carried {q : Place} (h : q.carried scheme = true) :
    Shut scheme (q.around ++ [q.node]) := by
  rw [carried, Bool.and_eq_true, atTop, List.isEmpty_iff] at h
  obtain ⟨htop, hcarried⟩ := h
  rw [htop]
  cases hnode : q.node with
  | block head nodes source =>
    have hentered : Placement.entered scheme (.block head nodes source) = false := by
      simpa [hnode, Node.isCarried, Placement.entered] using hcarried
    exact ⟨by simp [opensScope, hentered], rfl⟩
  | rule selectors nodes source => simp [hnode, Node.isCarried] at hcarried
  | _ => exact ⟨rfl, rfl⟩

/-- Nothing happens inside a block that is dropped. -/
theorem shut_of_dropped {q : Place} (h : q.dropped scheme = true) :
    Shut scheme (q.around ++ [q.node]) := by
  rw [dropped, Bool.and_eq_true] at h
  exact .concat (opensScope_of_opensRule h.2) q.node

theorem not_made_of_inside {p q : Place} (hin : p.Inside q)
    (hshut : Shut scheme (q.around ++ [q.node])) : p.made scheme = false := by
  obtain ⟨inner, -, rfl⟩ := hin
  exact not_made_of_shut (hshut.append inner.around)

theorem prefix_of_inside {p q : Place} (h : p.Inside q) : q.around ++ [q.node] <+: p.around := by
  obtain ⟨inner, -, rfl⟩ := h
  exact List.prefix_append _ _

/-- A block is not dropped inside a node that is carried along. -/
theorem not_inside_both {p q r : Place} (hq : q.carried scheme = true)
    (hr : r.dropped scheme = true) (hpq : p.Inside q) (hpr : p.Inside r) : False := by
  have htop : q.around = [] := by
    rw [carried, Bool.and_eq_true] at hq
    exact List.isEmpty_iff.1 hq.1
  rw [dropped, Bool.and_eq_true] at hr
  obtain ⟨front, rule, haround, -⟩ := exists_of_opensRule hr.2
  -- both ways start alike, so the one to `r` starts with the node of `q`
  have hprefix : q.around ++ [q.node] <+: r.around := by
    refine List.prefix_of_prefix_length_le (prefix_of_inside hpq)
      ((List.prefix_append _ _).trans (prefix_of_inside hpr)) ?_
    simp [htop, haround]
  obtain ⟨inner, hinner⟩ := hprefix
  have hshut := (shut_of_carried hq).append inner
  rw [hinner] at hshut
  have hrule : opensRule scheme r.around = true := hr.2
  rw [hshut.rule] at hrule
  cases hrule

/-- Where no rule is nested, a declaration is in a scope or a rule of one, or
    something around it is carried along or dropped. -/
theorem exists_fate {nodes : List Node} {p : Place}
    (hnested : ∀ q : Place, q.In nodes → q.nested scheme = false) (hp : p.In nodes)
    (hd : p.node.isDeclaration = true) : ∃ fate, p.Meets scheme nodes fate := by
  rcases opensScope_or_exists scheme p.around with
    hscope | ⟨before, outer, after, haround, hbefore, houter⟩
  · exact ⟨.made, by simp [Meets, made, inScope, hd, hscope]⟩
  obtain ⟨q, hq, rfl, rfl, hin⟩ := exists_of_around hp haround
  rcases isRule_or_isBlock_of_inside hin with hrule | hblock
  · -- `q` is a rule of a scope
    have hopens : opensRule scheme (q.around ++ [q.node]) = true := by
      rw [opensRule_concat, hrule, hbefore]
      rfl
    cases after with
    | nil => exact ⟨.made, by simp [Meets, made, inRule, hd, haround, hopens]⟩
    | cons next after =>
      have hnext : p.around = (q.around ++ [q.node]) ++ next :: after := by simp [haround]
      obtain ⟨r, hr, hround, rfl, hinside⟩ := exists_of_around hp hnext
      have hinRule : r.inRule scheme = true := by rw [inRule, hround, hopens]
      rcases isRule_or_isBlock_of_inside hinside with hnextRule | hnextBlock
      · have hnot := hnested r hr
        simp [nested, hnextRule, hinRule] at hnot
      · exact ⟨.dropped, r, hr, by simp [dropped, hnextBlock, hinRule], hinside⟩
  · -- `q` is a block that opens no scope, so it is a top-level one
    rw [opensScope_concat, hbefore, hblock] at houter
    simp only [Bool.and_self, Bool.true_and, Bool.or_eq_false_iff, Bool.not_eq_false'] at houter
    refine ⟨.carried, q, hq, ?_, hin⟩
    cases hnode : q.node with
    | block head nodes source =>
      rw [hnode] at houter
      simpa [carried, atTop, hnode, Node.isCarried, Placement.entered] using houter
    | _ => simp [hnode, Node.isBlock] at hblock

/-- Where no rule is nested, a declaration meets exactly one fate. -/
theorem existsUnique_fate {nodes : List Node} {p : Place}
    (hnested : ∀ q : Place, q.In nodes → q.nested scheme = false) (hp : p.In nodes)
    (hd : p.node.isDeclaration = true) : ∃! fate, p.Meets scheme nodes fate := by
  obtain ⟨fate, hfate⟩ := exists_fate hnested hp hd
  have hnotMade : ∀ {q : Place}, p.Inside q → Shut scheme (q.around ++ [q.node]) →
      ¬ p.Meets scheme nodes .made := by
    intro q hin hshut hmade
    rw [Meets, not_made_of_inside hin hshut] at hmade
    cases hmade
  refine ⟨fate, hfate, ?_⟩
  intro other hother
  match fate, other, hfate, hother with
  | .made, .made, _, _ => rfl
  | .carried, .carried, _, _ => rfl
  | .dropped, .dropped, _, _ => rfl
  | .made, .carried, hmade, ⟨q, _, hq, hin⟩ =>
    exact absurd hmade (hnotMade hin (shut_of_carried hq))
  | .carried, .made, ⟨q, _, hq, hin⟩, hmade =>
    exact absurd hmade (hnotMade hin (shut_of_carried hq))
  | .made, .dropped, hmade, ⟨q, _, hq, hin⟩ =>
    exact absurd hmade (hnotMade hin (shut_of_dropped hq))
  | .dropped, .made, ⟨q, _, hq, hin⟩, hmade =>
    exact absurd hmade (hnotMade hin (shut_of_dropped hq))
  | .carried, .dropped, ⟨q, _, hq, hin⟩, ⟨r, _, hr, hin'⟩ =>
    exact (not_inside_both hq hr hin hin').elim
  | .dropped, .carried, ⟨r, _, hr, hin'⟩, ⟨q, _, hq, hin⟩ =>
    exact (not_inside_both hq hr hin hin').elim

end Place

/-! ## Effects of a trace -/

namespace Trace

variable {scheme : Scheme} {ps : List Place} {refusal : Option Refusal}

theorem carried_of_places : carried ⟨ps.flatMap (Place.events scheme), refusal⟩ =
    (ps.filter (Place.carried scheme)).map Place.node := by
  rw [carried, List.filterMap_flatMap, flatMap_eq_flatMap_filter Place.carried_events ps]
  exact List.map_eq_flatMap.symm

theorem warnings_of_places (nodes : Nat) :
    (log ⟨ps.flatMap (Place.events scheme), refusal⟩ nodes).filter LogEntry.isWarning =
      (ps.filter (Place.dropped scheme)).map Place.warning := by
  have hcount : ∀ t : Trace, (if t.refusal.isSome = true then []
      else [countEntry nodes t.rules.length]).filter LogEntry.isWarning = [] := by
    intro t
    split <;> rfl
  rw [log, List.filter_append, hcount, List.append_nil, List.filterMap_flatMap,
    List.filter_flatMap, flatMap_eq_flatMap_filter Place.warnings_events ps]
  exact List.map_eq_flatMap.symm

end Trace

/-! ## Compilations -/

namespace Compiler

variable {c : Compiler} {nodes : List Node}

theorem compile_rules_eq_error_iff {e : Refusal} :
    (c.compile nodes).2.rules = .error e ↔ (c.trace nodes).refusal = some e := by
  unfold compile
  simp only
  split <;> simp [*]

/-- A compilation that is refused has met a nested rule, and what stands
    before the first one has happened. -/
theorem trace_of_error {e : Refusal} (h : (c.compile nodes).2.rules = .error e) :
    ∃ before p after inner contents source,
      places (c.prepare nodes) = before ++ p :: after ∧
      (∀ q ∈ before, q.nested c.scheme = false) ∧ p.nested c.scheme = true ∧
      p.node = .rule inner contents source ∧ e = .nestedRule (Selector.joinList inner) source ∧
      c.trace nodes = ⟨before.flatMap (Place.events c.scheme), some e⟩ := by
  have hrefusal := compile_rules_eq_error_iff.1 h
  rcases Trace.ofTree_cases c.scheme (c.prepare nodes) with
    ⟨_, htrace⟩ | ⟨before, p, after, hsplit, hbefore, hp, htrace⟩
  · rw [trace, htrace] at hrefusal
    cases hrefusal
  · obtain ⟨inner, contents, source, hnode⟩ := Place.exists_rule_of_nested hp
    rw [hnode] at htrace
    rw [trace, htrace] at hrefusal
    cases hrefusal
    exact ⟨before, p, after, inner, contents, source, hsplit, hbefore, hp, hnode, rfl, htrace⟩

/-- Every declaration of a tree that is compiled is made into rules, or
    carried along inside a node, or dropped with a block. The rules come in
    document order, for each declaration in the order of its selectors; and
    there is one warning for each block that is dropped. -/
theorem declarations_accounted_for {rules : List AtomicRule} (hplain : c.shorthandFirst = false)
    (h : (c.compile nodes).2.rules = .ok rules) :
    (∀ p : Place, p.In nodes → p.node.isDeclaration = true →
      ∃! fate, p.Meets c.scheme nodes fate) ∧
    DocumentOrder nodes (places nodes) ∧
    rules = ((places nodes).filter (Place.made c.scheme)).flatMap (Place.rules c.scheme) ∧
    (c.compile nodes).1.carried = ((places nodes).filter (Place.carried c.scheme)).map Place.node ∧
    (c.compile nodes).2.log.filter LogEntry.isWarning =
      ((places nodes).filter (Place.dropped c.scheme)).map Place.warning := by
  have hprepare : c.prepare nodes = nodes := by
    rw [prepare, hplain]
    rfl
  obtain ⟨hnested, htrace⟩ := trace_of_ok h
  rw [hprepare] at hnested htrace
  obtain ⟨-, hrules⟩ := compile_rules_eq_ok_iff.1 h
  have hlog : (c.compile nodes).2.log = (c.trace nodes).log nodes.length := rfl
  have hcarried : (c.compile nodes).1.carried = (c.trace nodes).carried := rfl
  refine ⟨fun p hp hd => Place.existsUnique_fate hnested hp hd, documentOrder_places nodes,
    ?_, ?_, ?_⟩
  · rw [← hrules, htrace, Trace.rules_of_places]
  · rw [hcarried, htrace, Trace.carried_of_places]
  · rw [hlog, htrace, Trace.warnings_of_places]

/-- A block that no rule may hold. -/
def printBlock : Node :=
  .block ⟨"media".toList, "print".toList⟩
    [.declaration ⟨"top".toList, "0".toList, false, none⟩] none

/-- A rule that holds it. -/
def hoverRule : Node :=
  .rule [":hover".toList, "a".toList]
    [.declaration ⟨"margin".toList, "0".toList, false, none⟩, printBlock] none

/-- That rule, a rule without selectors in two blocks, a block that is not
    supported, and a statement. -/
def mixedTree : List Node :=
  [.declaration ⟨"color".toList, "red".toList, false, none⟩, hoverRule,
   .block ⟨"media".toList, "print".toList⟩
     [.block ⟨"supports".toList, "(gap: 0)".toList⟩
       [.rule [] [.declaration ⟨"gap".toList, "0".toList, true, none⟩] none] none] none,
   .block ⟨"font-face".toList, []⟩
     [.declaration ⟨"src".toList, "x".toList, false, none⟩] none,
   .other "@import".toList "@import y;".toList none]

theorem declarations_accounted_for_mixed :
    freshCompiler.shorthandFirst = false ∧
      ∃ rules, (freshCompiler.compile mixedTree).2.rules = .ok rules ∧
        rules.map AtomicRule.declaration =
          [⟨"color".toList, "red".toList, false, none⟩,
           ⟨"margin".toList, "0".toList, false, none⟩, ⟨"margin".toList, "0".toList, false, none⟩,
           ⟨"gap".toList, "0".toList, true, none⟩] ∧
        (freshCompiler.compile mixedTree).1.carried.map Node.css =
          ["@font-face\x7bsrc:x\x7d".toList, "@import y;".toList] ∧
        ((freshCompiler.compile mixedTree).2.log.filter LogEntry.isWarning).map
            LogEntry.message =
          [("Dropping @media print nested inside rule ':hover, a'; " ++
            "hoist it out of the rule first").toList] ∧
        ∃! fate, Place.Meets .default mixedTree ⟨[1, 1, 0], [hoverRule, printBlock],
          .declaration ⟨"top".toList, "0".toList, false, none⟩⟩ fate := by
  have hok : (freshCompiler.compile mixedTree).2.rules =
      .ok (freshCompiler.trace mixedTree).rules := compile_rules_eq_ok_iff.2 ⟨rfl, rfl⟩
  obtain ⟨hfates, _, hrules, hcarried, hwarnings⟩ := declarations_accounted_for rfl hok
  refine ⟨rfl, _, hok, ?_, ?_, ?_, ?_⟩
  · rw [hrules]
    rfl
  · rw [hcarried]
    rfl
  · rw [hwarnings]
    decide +kernel
  · exact hfates _ (.inside (i := 1) rfl (.inside (i := 1) rfl (.here rfl))) rfl

/-- A tree is refused if and only if a rule stands directly in a reached one,
    and then for the first such rule. The names that have been seen are those
    of the rules, or those of what stands before the nested rule; and of the
    carried nodes those before it are kept. -/
theorem compile_refused_iff_nested (c : Compiler) (nodes : List Node) :
    ((∃ e, (c.compile nodes).2.rules = .error e) ↔
      ∃ p : Place, p.In (c.prepare nodes) ∧ p.nested c.scheme = true) ∧
    (∀ rules, (c.compile nodes).2.rules = .ok rules →
      (c.compile nodes).1.names = c.names ++ rules.map AtomicRule.className) ∧
    DocumentOrder (c.prepare nodes) (places (c.prepare nodes)) ∧
    ∀ e, (c.compile nodes).2.rules = .error e →
      ∃ before p after inner contents source,
        places (c.prepare nodes) = before ++ p :: after ∧
        (∀ q ∈ before, q.nested c.scheme = false) ∧ p.nested c.scheme = true ∧
        p.node = .rule inner contents source ∧
        e = .nestedRule (Selector.joinList inner) source ∧
        (c.compile nodes).1.names = c.names ++
          ((before.filter (Place.made c.scheme)).flatMap (Place.rules c.scheme)).map
            AtomicRule.className ∧
        (c.compile nodes).1.carried = (before.filter (Place.carried c.scheme)).map Place.node := by
  have hnames : (c.compile nodes).1.names = c.names ++ (c.trace nodes).names := rfl
  have hcarried : (c.compile nodes).1.carried = (c.trace nodes).carried := rfl
  refine ⟨⟨?_, ?_⟩, fun rules h => names_of_ok h, documentOrder_places _, ?_⟩
  · rintro ⟨e, he⟩
    obtain ⟨before, p, after, _, _, _, hsplit, _, hp, _⟩ := trace_of_error he
    refine ⟨p, mem_places_iff.1 ?_, hp⟩
    rw [hsplit]
    exact List.mem_append_right _ (List.mem_cons_self ..)
  · rintro ⟨p, hin, hp⟩
    cases hrules : (c.compile nodes).2.rules with
    | error e => exact ⟨e, rfl⟩
    | ok rules =>
      rw [(trace_of_ok hrules).1 p hin] at hp
      cases hp
  · intro e he
    obtain ⟨before, p, after, inner, contents, source, hsplit, hbefore, hp, hnode, heq, htrace⟩ :=
      trace_of_error he
    refine ⟨before, p, after, inner, contents, source, hsplit, hbefore, hp, hnode, heq, ?_, ?_⟩
    · rw [hnames, htrace, Trace.names, Trace.rules_of_places]
    · rw [hcarried, htrace, Trace.carried_of_places]

/-- A rule in a block has another one inside, between a node that is carried
    along and one that is not reached. -/
def nestedTree : List Node :=
  [.other "@import".toList "@import y;".toList none,
   .block ⟨"media".toList, "print".toList⟩
     [.rule ["b".toList]
       [.declaration ⟨"gap".toList, "0".toList, false, none⟩,
        .rule ["a".toList, ":hover".toList] [] none,
        .declaration ⟨"top".toList, "0".toList, false, none⟩] none] none,
   .other "@import".toList "@import z;".toList none]

example :
    (freshCompiler.compile nestedTree).2.rules = .error (.nestedRule "a, :hover".toList none) ∧
      (freshCompiler.compile nestedTree).1.names.length = 1 ∧
      (freshCompiler.compile nestedTree).1.carried =
        [.other "@import".toList "@import y;".toList none] := ⟨rfl, rfl, rfl⟩

end Compiler

end StyleSlots
