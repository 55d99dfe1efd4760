import StyleSlots.Proofs.Node.Occurrences

/-! # Blocks are read back from their text

    A block that no rule is made from is carried along as text. Whoever
    reads that text again gets the block without its comments.

    - **Without comments**: a tree in which the comments have been left out
      at every depth, which is all that printing loses.
    - **Expression**: items that have a given text and mean given nodes,
      wherever they stand. Items are put in front of others one by one, with
      a semicolon item between them where a semicolon is written.
    - **Main statement**: `ofText_css_block`, the text of any block of a tree
      that has been read is read as this block without its comments. The
      rules in it need a selector to start with: a list of selectors may
      start with a comma, and what is left without the comma may start like
      something else or be empty. -/

namespace StyleSlots

namespace Node

/-! ## Without comments -/

def isComment : Node → Bool
  | comment _ _ => true
  | _ => false

mutual

/-- A node without the comments inside it. -/
def withoutComments : Node → Node
  | rule selectors nodes source => rule selectors (withoutCommentsAll nodes) source
  | block head nodes source => block head (withoutCommentsAll nodes) source
  | node => node

/-- A list of nodes without the comments, at any depth. -/
def withoutCommentsAll : List Node → List Node
  | [] => []
  | node :: more =>
    if node.isComment then withoutCommentsAll more
    else withoutComments node :: withoutCommentsAll more

end

/-- Whether a rule has a first selector with which a rule can start. -/
def Headed : Node → Prop
  | rule selectors _ _ => ∃ first ∈ selectors.head?, first.head? ≠ some '@' ∧ first.head? ≠ some '/'
  | _ => True

/-! ## Bodies -/

theorem abut_ne_nil {t : Text} (h : t ≠ []) (more : List Text) : abut (t :: more) ≠ [] := by
  cases more <;> simp [abut, h]

theorem css_of_isComment {n : Node} (h : n.isComment = true) : n.css = [] := by
  cases n with
  | comment _ _ => rfl
  | _ => cases h

theorem body_nil_cons (texts : List Text) : body ([] :: texts) = body texts := rfl

theorem filter_of_body_eq_nil {texts : List Text} (h : body texts = []) :
    texts.filter (! ·.isEmpty) = [] := by
  by_contra hne
  obtain ⟨t, more, heq⟩ := List.exists_cons_of_ne_nil hne
  have ht : t ≠ [] := by
    have hmem : t ∈ texts.filter (! ·.isEmpty) := by
      rw [heq]
      exact List.mem_cons_self ..
    simpa using (List.mem_filter.1 hmem).2
  rw [body, heq] at h
  exact abut_ne_nil ht more h

/-- Behind the last text of a body nothing is written. -/
theorem body_cons_last {t : Text} (ht : t ≠ []) {texts : List Text} (h : body texts = []) :
    body (t :: texts) = t := by
  have hfilter := filter_of_body_eq_nil h
  rw [body, List.filter_cons_of_pos (by simpa using ht), hfilter]
  rfl

/-- Between two texts of a body a semicolon stands if the first one is not
    closed. -/
theorem body_cons {t : Text} (ht : t ≠ []) {texts : List Text} (h : body texts ≠ []) :
    body (t :: texts) = t ++ ((if isClosed t then [] else [';']) ++ body texts) := by
  rw [body, List.filter_cons_of_pos (by simpa using ht)]
  unfold body at h ⊢
  cases hfilter : texts.filter (! ·.isEmpty) with
  | nil =>
    rw [hfilter] at h
    exact absurd rfl h
  | cons next more =>
    rw [abut, List.append_assoc]
    simp

theorem isClosed_concat (t : Text) {c : Char} (h : c = '\x7d' ∨ c = ';') :
    isClosed (t ++ [c]) = true := by
  rcases h with rfl | rfl <;> simp [isClosed]

theorem isClosed_of_isRun {t : Text} (h : IsRun t) : isClosed t = false := by
  obtain ⟨c, s, rfl, _⟩ := Lexeme.exists_cons_of_isRun h
  obtain ⟨d, hd⟩ : ∃ d, (c :: s).getLast? = some d := ⟨_, List.getLast?_cons⟩
  have hdelimiter := h.no_delimiter d (List.mem_of_getLast? hd)
  unfold isClosed
  rw [hd]
  simp only [Bool.or_eq_false_iff, decide_eq_false_iff_not]
  constructor
  · rintro rfl
    cases hdelimiter
  · rintro rfl
    cases hdelimiter

/-! ## Sameness -/

theorem agreesAll_append {as bs ms ns : List Node} (ha : agreesAll as ms = true)
    (hb : agreesAll bs ns = true) : agreesAll (as ++ bs) (ms ++ ns) = true := by
  induction as generalizing ms with
  | nil =>
    cases ms with
    | nil => exact hb
    | cons m ms => cases ha
  | cons a as ih =>
    cases ms with
    | nil => cases ha
    | cons m ms =>
      rw [agreesAll, Bool.and_eq_true] at ha
      rw [List.cons_append, List.cons_append, agreesAll, Bool.and_eq_true]
      exact ⟨ha.1, ih ha.2⟩

theorem agreesAll_singleton {m n : Node} (h : m.agrees n = true) : agreesAll [m] [n] = true := by
  simp [agreesAll, h]

/-- What is the same as a block is one node. -/
theorem exists_of_agreesAll_block {ms : List Node} {head : AtRule} {inner : List Node}
    {source : Option Position} (h : agreesAll ms [block head inner source] = true) :
    ∃ m, ms = [m] ∧ m.agrees (block head inner source) = true := by
  cases ms with
  | nil => cases h
  | cons m ms =>
    rw [agreesAll, Bool.and_eq_true, Bool.or_eq_true, Bool.and_eq_true] at h
    cases ms with
    | cons _ _ => cases h.2
    | nil =>
      refine ⟨m, rfl, ?_⟩
      rcases h.1 with hm | ⟨_, hundefined⟩
      · exact hm
      · cases hundefined

end Node

/-! ## Expression -/

namespace Item

open Node

/-- Whether items have the given text and mean the given nodes, wherever
    they stand. -/
structure Express (items : List Item) (t : Text) (nodes : List Node) : Prop where
  legal   : LegalAll items
  written : writtenAll items = t
  proper  : ∀ p, ∀ d ∈ runsAll p items, hasProperty d.2 = true
  meant   : ∀ p, agreesAll (nodesAll p items) nodes = true

theorem express_nil : Express [] [] [] where
  legal := trivial
  written := rfl
  proper := fun _ _ hd => by cases hd
  meant := fun _ => rfl

theorem express_semicolon : Express [semicolon] [';'] [] where
  legal := ⟨trivial, by simp [isOpen], trivial⟩
  written := rfl
  proper := fun _ _ hd => by cases hd
  meant := fun _ => rfl

/-- An item is put in front of others. -/
theorem Express.cons {item : Item} {more : List Item} {s t : Text} {ms ns : List Node}
    (hitem : Express [item] s ms) (hmore : Express more t ns)
    (hopen : item.isOpen = true → ∀ next ∈ more.head?, next = semicolon) :
    Express (item :: more) (s ++ t) (ms ++ ns) where
  legal := ⟨hitem.legal.1, hopen, hmore.legal⟩
  written := by
    have hs : item.written ++ [] = s := hitem.written
    rw [List.append_nil] at hs
    rw [writtenAll, hs, hmore.written]
  proper := by
    intro p d hd
    rcases List.mem_append.1 hd with hd | hd
    · exact hitem.proper p d (List.mem_append_left _ hd)
    · exact hmore.proper _ d hd
  meant := by
    intro p
    have hms : agreesAll (item.nodes p ++ []) ms = true := hitem.meant p
    rw [List.append_nil] at hms
    exact agreesAll_append hms (hmore.meant _)

theorem written_ne_nil {item : Item} (h : item.Legal) : item.written ≠ [] := by
  cases item with
  | declaration run =>
    obtain ⟨c, s, rfl, _⟩ := Lexeme.exists_cons_of_isRun h
    simp [written]
  | _ => simp [written]

theorem eq_nil_of_writtenAll {items : List Item} (h : LegalAll items)
    (hnil : writtenAll items = []) : items = [] := by
  cases items with
  | nil => rfl
  | cons item more => exact absurd (List.append_eq_nil_iff.1 hnil).1 (written_ne_nil h.1)

/-- A text is put in front of a body as an item is put in front of its items,
    with a semicolon between them where one is written. -/
theorem Express.body_cons {item : Item} {more : List Item} {s : Text} {texts : List Text}
    {n : Node} {ns : List Node} (hitem : Express [item] s [n]) (hopen : item.isOpen = ! isClosed s)
    (hmore : Express more (body texts) ns) :
    ∃ items, Express items (body (s :: texts)) (n :: ns) := by
  have hs : s ≠ [] := by
    rw [← hitem.written]
    intro hnil
    cases eq_nil_of_writtenAll hitem.legal hnil
  by_cases hbody : body texts = []
  · -- without a text behind it the item is the last one
    have hnil : more = [] := eq_nil_of_writtenAll hmore.legal (hmore.written.trans hbody)
    refine ⟨item :: more, ?_⟩
    have hcons := hitem.cons hmore (by simp [hnil])
    rwa [hbody, List.append_nil, ← body_cons_last hs hbody] at hcons
  · rw [Node.body_cons hs hbody]
    by_cases hclosed : isClosed s = true
    · refine ⟨item :: more, ?_⟩
      have hcons := hitem.cons hmore (by simp [hopen, hclosed])
      rwa [if_pos hclosed, List.nil_append]
    · -- the semicolon that is written is an item of its own
      refine ⟨item :: semicolon :: more, ?_⟩
      have hsemicolon := express_semicolon.cons hmore (by simp [isOpen])
      have hcons := hitem.cons hsemicolon (by simp)
      rwa [if_neg hclosed]

/-! ## Nodes one by one -/

theorem express_declaration {d : Declaration} (h : d.Plain) :
    Express [.declaration d.css] d.css [.declaration d] := by
  have hrun := Declaration.isRun_css h
  refine ⟨⟨hrun, by simp, trivial⟩, List.append_nil _, ?_, ?_⟩
  · -- the run is read as a declaration, so it has a property
    intro p e he
    obtain rfl : e = (p, d.css) := by simpa [runsAll, runs] using he
    have hnone := Declaration.ofRun?_isNone d.css (some p)
    rw [Declaration.ofRun?_css h] at hnone
    simpa using hnone
  · intro p
    have hread := Declaration.ofRun?_css h (some p)
    show agreesAll ((Declaration.ofRun? d.css (some p)).toList.map .declaration ++ []) _ = true
    rw [hread]
    refine agreesAll_singleton ?_
    simp [agrees, Declaration.agrees]

theorem express_statement {name params : Text} (h : IsAtHead name params)
    (source : Option Position) :
    Express [.statement name params] ('@' :: name ++ params ++ [';'])
      [.other ('@' :: name) ('@' :: name ++ params ++ [';']) source] where
  legal := ⟨h, by simp [isOpen], trivial⟩
  written := List.append_nil _
  proper := fun _ _ hd => by cases hd
  meant := fun p => agreesAll_singleton (by simp [agrees])

/-- Selectors that are joined by commas are the run of a rule. -/
theorem isRun_joinList {selectors : List Text} {nodes : List Node} {source : Option Position}
    (hplain : (Node.rule selectors nodes source).Plain)
    (hheaded : (Node.rule selectors nodes source).Headed) :
    IsRun (Selector.joinList selectors) := by
  obtain ⟨hlist, hdelimiter⟩ := hplain
  obtain ⟨first, hfirst, hat, hslash⟩ := hheaded
  obtain ⟨more, rfl⟩ := List.head?_eq_some_iff.1 hfirst
  have hmem := List.mem_cons_self (a := first) (l := more)
  obtain ⟨c, s, rfl⟩ := List.exists_cons_of_ne_nil (hlist.ne_nil first hmem)
  constructor
  · -- the run starts as the first selector does, which is trimmed
    refine ⟨c, ?_, startsRun_iff.2 ⟨?_, ?_, ?_, ?_⟩⟩
    · cases more <;> rfl
    · rintro rfl
      exact hat rfl
    · rintro rfl
      exact hslash rfl
    · exact hdelimiter _ hmem c (List.mem_cons_self ..)
    · exact (hlist.trimmed _ hmem).start c rfl
  · -- what joins the selectors is no delimiter either
    intro d hd
    rcases Selector.mem_joinList hd with rfl | rfl | ⟨t, ht, hdt⟩
    · rfl
    · rfl
    · exact hdelimiter t ht d hdt

theorem agrees_node {ms ns : List Node} (h : agreesAll ms ns = true) (opening : Opening)
    (p source : Option Position) : (opening.node ms p).agrees (opening.node ns source) = true := by
  cases opening <;> simp [Opening.node, agrees, h]

/-- A rule or block with the items of a body between its braces. -/
theorem Express.braces {items : List Item} {t : Text} {inner : List Node}
    (h : Express items t inner) (item : Item) (opening : Opening) (run : Text)
    (source : Option Position) (hlegal : item.Legal) (hclosed : item.isOpen = false)
    (hwritten : item.written = Node.braces run (writtenAll items))
    (hruns : ∀ p, item.runs p = runsAll (p.behind (run ++ ['\x7b'])) items)
    (hnodes : ∀ p, item.nodes p =
      [opening.node (nodesAll (p.behind (run ++ ['\x7b'])) items) (some p)]) :
    Express [item] (Node.braces run t) [opening.node inner source] where
  legal := ⟨hlegal, by simp [hclosed], trivial⟩
  written := by
    show item.written ++ [] = _
    rw [List.append_nil, hwritten, h.written]
  proper := by
    intro p d hd
    refine h.proper (p.behind (run ++ ['\x7b'])) d ?_
    rwa [runsAll, runsAll, List.append_nil, hruns] at hd
  meant := by
    intro p
    show agreesAll (item.nodes p ++ []) _ = true
    rw [List.append_nil, hnodes]
    exact agreesAll_singleton (agrees_node (h.meant _) opening _ _)

theorem express_rule {selectors : List Text} (hrun : IsRun (Selector.joinList selectors))
    (hlist : Selector.IsList selectors) {items : List Item} {t : Text} {inner : List Node}
    (h : Express items t inner) (source : Option Position) :
    Express [.rule (Selector.joinList selectors) items]
      (Node.braces (Selector.joinList selectors) t) [.rule selectors inner source] := by
  refine h.braces _ (.rule selectors) _ source ⟨hrun, h.legal⟩ rfl rfl (fun _ => rfl) ?_
  intro p
  rw [nodes, Selector.split_joinList hlist]
  rfl

/-- The parameters of a head as they are written behind its name. -/
def gapped (params : Text) : Text := if params.isEmpty then [] else ' ' :: params

theorem prelude_eq (head : AtRule) : head.prelude = '@' :: head.name ++ gapped head.params := by
  unfold AtRule.prelude gapped
  split <;> simp

theorem isAtHead_gapped {head : AtRule} (h : head.Plain) :
    IsAtHead head.name (gapped head.params) := by
  unfold gapped
  refine ⟨h.ne_nil, h.name_char, ?_, ?_⟩
  · -- the name ends at the space
    intro c hc
    split at hc
    · cases hc
    · obtain rfl : ' ' = c := Option.some.inj hc
      rfl
  · intro c hc
    split at hc
    · cases hc
    · rcases List.mem_cons.1 hc with rfl | hc
      · rfl
      · exact h.no_delimiter c hc

theorem trim_gapped {params : Text} (h : Text.IsTrimmed params) :
    (gapped params).trim = params := by
  unfold gapped
  split
  · next hempty =>
    rw [List.isEmpty_iff.1 hempty]
    rfl
  · have hblank : ∀ c ∈ [' '], isBlank c = true := by simpa using Text.isBlank_space
    have htrim : Text.trim ([' '] ++ params ++ []) = params :=
      Text.trim_of_isTrimmed h hblank (by simp)
    rwa [List.append_nil] at htrim

theorem express_block {head : AtRule} (hhead : head.Plain) {items : List Item} {t : Text}
    {inner : List Node} (h : Express items t inner) (source : Option Position) :
    Express [.block head.name (gapped head.params) items] (Node.braces head.prelude t)
      [.block head inner source] := by
  rw [prelude_eq]
  refine h.braces _ (.block head) _ source ⟨isAtHead_gapped hhead, h.legal⟩ rfl rfl
    (fun _ => rfl) ?_
  intro p
  rw [nodes, trim_gapped hhead.trimmed]
  rfl

/-! ## Trees -/

mutual

/-- A node that is no comment is expressed by one item. -/
theorem exists_item : ∀ n : Node, n.isComment = false →
    (∀ m, Occurs m [n] → m.Plain ∧ m.Headed) →
    ∃ item, Express [item] n.css [n.withoutComments] ∧ item.isOpen = ! isClosed n.css
  | .declaration d, _, h => by
    obtain ⟨hplain, _⟩ := h _ .here
    have hclosed := isClosed_of_isRun (Declaration.isRun_css hplain)
    refine ⟨.declaration d.css, express_declaration hplain, ?_⟩
    show true = ! isClosed d.css
    rw [hclosed]
    rfl
  | .rule selectors inner source, _, h => by
    obtain ⟨hplain, hheaded⟩ := h _ .here
    obtain ⟨items, hitems⟩ := exists_items inner fun m hm => h m (.inside hm)
    have hrun := isRun_joinList hplain hheaded
    refine ⟨_, express_rule hrun hplain.1 hitems source, ?_⟩
    have hclosed : isClosed (Node.rule selectors inner source).css = true :=
      isClosed_concat _ (.inl rfl)
    rw [hclosed]
    rfl
  | .block head inner source, _, h => by
    obtain ⟨hplain, _⟩ := h _ .here
    obtain ⟨items, hitems⟩ := exists_items inner fun m hm => h m (.inside hm)
    refine ⟨_, express_block hplain hitems source, ?_⟩
    have hclosed : isClosed (Node.block head inner source).css = true :=
      isClosed_concat _ (.inl rfl)
    rw [hclosed]
    rfl
  | .comment _ _, hcomment, _ => by cases hcomment
  | .other kind text source, _, h => by
    obtain ⟨⟨name, params, hhead, rfl, rfl⟩, _⟩ := h _ .here
    refine ⟨.statement name params, express_statement hhead source, ?_⟩
    have hclosed : isClosed ('@' :: name ++ params ++ [';']) = true :=
      isClosed_concat _ (.inr rfl)
    show false = ! isClosed ('@' :: name ++ params ++ [';'])
    rw [hclosed]
    rfl
  | .foreign _, _, h => (h _ .here).1.elim

/-- The text of a body is that of items that mean its nodes without the
    comments. -/
theorem exists_items : ∀ nodes : List Node,
    (∀ m, Occurs m nodes → m.Plain ∧ m.Headed) →
    ∃ items, Express items (body (cssAll nodes)) (withoutCommentsAll nodes)
  | [], _ => ⟨[], express_nil⟩
  | n :: more, h => by
    obtain ⟨items, hitems⟩ := exists_items more fun m hm => h m (.later hm)
    by_cases hcomment : n.isComment = true
    · -- a comment has no text
      refine ⟨items, ?_⟩
      have hcss : n.css = [] := css_of_isComment hcomment
      rw [withoutCommentsAll, if_pos hcomment, cssAll, hcss, body_nil_cons]
      exact hitems
    · obtain ⟨item, hitem, hopen⟩ :=
        exists_item n (by simpa using hcomment) fun m hm => h m hm.of_singleton
      rw [withoutCommentsAll, if_neg hcomment, cssAll]
      exact hitem.body_cons hopen hitems

end

end Item

namespace Node

/-- The text of a block of a tree that has been read is read as this block
    without its comments. -/
theorem exists_ofText_css {source t : Text} {nodes : List Node}
    (hread : Node.ofText source t = .ok nodes) {head : AtRule} {inner : List Node}
    {place : Option Position} (hblock : Occurs (.block head inner place) nodes)
    (hheaded : ∀ n, Occurs n inner → n.Headed) (source' : Text) :
    ∃ n, Node.ofText source' (css (.block head inner place)) = .ok [n] ∧
      n.agrees (withoutComments (.block head inner place)) = true := by
  have hinner : ∀ m, Occurs m inner → m.Plain ∧ m.Headed := by
    intro m hm
    have hm' : Occurs m nodes := hblock.trans hm
    exact ⟨plain_of_ofText hread hm', hheaded m hm⟩
  have hall : ∀ m, Occurs m [.block head inner place] → m.Plain ∧ m.Headed :=
    forall_occurs_cons.2 ⟨⟨plain_of_ofText hread hblock, trivial⟩, hinner, by simp⟩
  obtain ⟨item, hitem, _⟩ := Item.exists_item (.block head inner place) rfl hall
  obtain ⟨n, hn, hagrees⟩ := exists_of_agreesAll_block (hitem.meant (.origin source'))
  refine ⟨n, ?_, hagrees⟩
  exact ofText_eq_ok_iff.2
    ⟨[item], ⟨hitem.legal, hitem.written⟩, hitem.proper (.origin source'), hn⟩

/-- A rule that has been read has a selector to start with unless a comma
    stands in front of its selectors. -/
theorem headed_of_isRun {run : Text} (hrun : IsRun run) (hcomma : run.head? ≠ some ',')
    (contents : List Node) (start : Option Position) :
    (Node.rule (Selector.split run) contents start).Headed := by
  obtain ⟨c, s, rfl, hstart⟩ := Lexeme.exists_cons_of_isRun hrun
  obtain ⟨hat, hslash, _, hblank⟩ := startsRun_iff.1 hstart
  have hne : c ≠ ',' := by
    rintro rfl
    exact hcomma rfl
  -- the first selector starts as the run does
  obtain ⟨first, more, hsplit, hhead⟩ := Selector.exists_split_cons hne hblank s
  refine ⟨first, by rw [hsplit]; rfl, ?_, ?_⟩
  · rw [hhead]
    simpa using hat
  · rw [hhead]
    simpa using hslash

theorem exists_comma_of_not_headed {source t : Text} {nodes : List Node}
    (hread : Node.ofText source t = .ok nodes) {selectors : List Text} {contents : List Node}
    {start : Option Position} (hrule : Occurs (.rule selectors contents start) nodes)
    (hheadless : ¬ (Node.rule selectors contents start).Headed) :
    ∃ before prelude behind, t = before ++ ',' :: prelude ++ '\x7b' :: behind ∧
      selectors = Selector.split (',' :: prelude) ∧
      start = some ((Position.origin source).behind before) := by
  obtain ⟨before, run, behind, ht, hrun, rfl, rfl⟩ := exists_run_of_ofText hread hrule
  have hcomma : run.head? = some ',' := by
    by_contra hne
    exact hheadless (headed_of_isRun hrun hne _ _)
  obtain ⟨prelude, rfl⟩ := List.head?_eq_some_iff.1 hcomma
  exact ⟨before, prelude, behind, ht, rfl, rfl⟩

end Node

/-- The text of a block of a tree that has been read, whatever the depth at
    which it stands there, is read as this block without its comments, if the
    rules in it have a selector to start with. A rule of such a tree has none
    only if a comma stands where the rule starts in the text. -/
theorem Node.ofText_css_block {source t : Text} {nodes : List Node}
    (hread : Node.ofText source t = .ok nodes) :
    (∀ head inner place, Occurs (.block head inner place) nodes →
      (∀ n, Occurs n inner → n.Headed) → ∀ source',
      ∃ n, Node.ofText source' (css (.block head inner place)) = .ok [n] ∧
        n.agrees (withoutComments (.block head inner place)) = true) ∧
    ∀ selectors contents start, Occurs (.rule selectors contents start) nodes →
      ¬ (Node.rule selectors contents start).Headed →
      ∃ before prelude behind, t = before ++ ',' :: prelude ++ '\x7b' :: behind ∧
        selectors = Selector.split (',' :: prelude) ∧
        start = some ((Position.origin source).behind before) := by
  constructor
  · intro head inner place hblock hheaded source'
    exact exists_ofText_css hread hblock hheaded source'
  · intro selectors contents start hrule hheadless
    exact exists_comma_of_not_headed hread hrule hheadless

/-- A block inside another one, with blanks, a comment and semicolons that
    are not written again, in front of a rule without a selector. -/
theorem Node.ofText_css_block_nested :
    (∃ n, Node.ofText [] "@m p\x7ba:b !important;e, f\x7bh:i\x7d@i x;\x7d".toList = .ok [n] ∧
      n.agrees (.block ⟨['m'], ['p']⟩
        [.declaration ⟨['a'], ['b'], true, some ⟨1, 11, []⟩⟩,
          .rule [['e'], ['f']] [.declaration ⟨['h'], ['i'], false, some ⟨1, 36, []⟩⟩]
            (some ⟨1, 32, []⟩),
          .other "@i".toList "@i x;".toList (some ⟨1, 41, []⟩)] (some ⟨1, 4, []⟩)) = true) ∧
    ∃ before prelude behind,
      "@s\x7b@m  p \x7ba : b!important;/*c*/e,f\x7bh:i;\x7d@i x;\x7d\x7d,\x7b\x7d".toList =
        before ++ ',' :: prelude ++ '\x7b' :: behind ∧
      [] = Selector.split (',' :: prelude) ∧
      some ⟨1, 48, []⟩ = some ((Position.origin []).behind before) := by
  have hspells : Item.Spells
      [.block ['s'] [] [.block ['m'] [' ', ' ', 'p', ' ']
        [.declaration "a : b!important".toList, .semicolon, .comment ['c'],
          .rule ['e', ',', 'f'] [.declaration ['h', ':', 'i'], .semicolon],
          .statement ['i'] [' ', 'x']]],
        .rule [','] []]
      "@s\x7b@m  p \x7ba : b!important;/*c*/e,f\x7bh:i;\x7d@i x;\x7d\x7d,\x7b\x7d".toList := by
    have hs : IsAtHead ['s'] [] := by decide
    have hm : IsAtHead ['m'] [' ', ' ', 'p', ' '] := by decide
    have hi : IsAtHead ['i'] [' ', 'x'] := by decide
    have ha : IsRun "a : b!important".toList := by decide
    have hef : IsRun ['e', ',', 'f'] := by decide
    have hh : IsRun ['h', ':', 'i'] := by decide
    have hcomma : IsRun [','] := by decide
    have hcomment : ¬ commentEnd <:+: ['c'] := by decide
    refine ⟨?_, rfl⟩
    simp only [Item.LegalAll, Item.Legal, Item.isOpen, hs, hm, hi, ha, hef, hh, hcomma, hcomment]
    simp
  have hread : Node.ofText []
      "@s\x7b@m  p \x7ba : b!important;/*c*/e,f\x7bh:i;\x7d@i x;\x7d\x7d,\x7b\x7d".toList =
      .ok [.block ⟨['s'], []⟩ [.block ⟨['m'], ['p']⟩
        [.declaration ⟨['a'], ['b'], true, some ⟨1, 11, []⟩⟩, .comment ['c'] (some ⟨1, 27, []⟩),
          .rule [['e'], ['f']] [.declaration ⟨['h'], ['i'], false, some ⟨1, 36, []⟩⟩]
            (some ⟨1, 32, []⟩),
          .other "@i".toList "@i x;".toList (some ⟨1, 41, []⟩)]
        (some ⟨1, 4, []⟩)] (some ⟨1, 1, []⟩), .rule [] [] (some ⟨1, 48, []⟩)] :=
    Node.ofText_eq_ok_iff.2 ⟨_, hspells, by decide, rfl⟩
  obtain ⟨hback, hcomma⟩ := Node.ofText_css_block hread
  constructor
  · refine hback _ _ _ (.inside .here) ?_ []
    have hrule : (Node.rule [['e'], ['f']] [.declaration ⟨['h'], ['i'], false, some ⟨1, 36, []⟩⟩]
        (some ⟨1, 32, []⟩)).Headed := ⟨['e'], rfl, by decide, by decide⟩
    simp only [forall_occurs_cons, inside, hrule]
    simp [Headed]
  · refine hcomma _ _ _ (.later .here) ?_
    rintro ⟨first, hfirst, _⟩
    cases hfirst

end StyleSlots
