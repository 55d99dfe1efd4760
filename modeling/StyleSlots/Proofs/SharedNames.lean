import StyleSlots.Proofs.ClassName.Alike

/-! # Shared names and shared groups

    Names and groups are truncated hashes. Two of them are the same if the
    same text is hashed, and may be the same by accident if it is not.

    - **Names**: for two declarations that fill one slot the texts are the
      same if these mean the same, as far as blanks go.
    - **Groups**: for two slots the texts are the same if the slots are
      alike.
    - **Main statements**: `declarationText_eq_iff_alike` for declarations
      that have been read, and `groupText_eq_iff_alike` for rules that have
      been compiled, with what this means to a merge. -/

namespace StyleSlots

open Text ClassName

/-! ## Names -/

/-- Whether the blanks inside of quoted strings stand one by one and are
    spaces. -/
def Declaration.HasSingleSpaces (d : Declaration) : Prop :=
  ∀ q ∈ quotedStrings d.value, q.squeeze = q

theorem Declaration.Alike.squeezeUnquoted_eq {a b : Declaration} (ha : a.Plain) (hb : b.Plain)
    (has : a.HasSingleSpaces) (hbs : b.HasSingleSpaces) (h : a.Alike b) :
    a.value.squeezeUnquoted = b.value.squeezeUnquoted := by
  have hcollapse : ∀ {d : Declaration}, d.Plain → d.HasSingleSpaces →
      d.value.squeezeUnquoted = d.value.collapse := by
    intro d hd hds
    rw [squeezeUnquoted_eq_squeeze hds, collapse_eq_squeeze_trim, hd.value_trimmed.trim_eq]
  rw [hcollapse ha has, hcollapse hb hbs, h.value]

/-- In one slot a class name is shared if and only if the hashes of what is
    put into the slot are. -/
theorem ClassName.encode_eq_iff {a b : Declaration} (hprop : a.prop = b.prop) (scheme : Scheme)
    (context : List Text) (selector : Text) :
    encode scheme context selector a = encode scheme context selector b ↔
      declarationHash scheme a.value a.important = declarationHash scheme b.value b.important := by
  rw [encode, encode, hprop, List.append_cancel_left_eq]

/-- Two declarations that have been read, each from a text of its own or both
    from one, have the same composite if and only if they mean the same, as
    far as blanks go that may stand in quotes. If those stand one by one, the
    values also differ in blanks outside of quotes only. Two such declarations
    for one slot share a class name only if they mean the same, or if their
    composites, which differ, have one hash. -/
theorem ClassName.declarationText_eq_iff_alike {source source' t t' : Text}
    {nodes nodes' : List Node} (hread : Node.ofText source t = .ok nodes)
    (hread' : Node.ofText source' t' = .ok nodes') {a b : Declaration}
    (ha : Node.Occurs (.declaration a) nodes) (hb : Node.Occurs (.declaration b) nodes')
    (hav : a.HasValue) (hbv : b.HasValue) :
    (declarationText a.value a.important = declarationText b.value b.important ↔ a.Alike b) ∧
    (a.HasSingleSpaces → b.HasSingleSpaces → a.Alike b →
      a.value.squeezeUnquoted = b.value.squeezeUnquoted) ∧
    (a.prop = b.prop → ∀ scheme context selector,
      (encode scheme context selector a = encode scheme context selector b ↔ a.Alike b ∨
        declarationText a.value a.important ≠ declarationText b.value b.important ∧
          declarationHash scheme a.value a.important =
            declarationHash scheme b.value b.important)) := by
  have hap : a.Plain := Node.plain_of_ofText hread ha
  have hbp : b.Plain := Node.plain_of_ofText hread' hb
  have htext := declarationText_eq_iff
    (fun h => collapse_ne_nil_of_isTrimmed hap.value_trimmed (hav h))
    (fun h => collapse_ne_nil_of_isTrimmed hbp.value_trimmed (hbv h))
  refine ⟨htext, fun has hbs => Declaration.Alike.squeezeUnquoted_eq hap hbp has hbs, ?_⟩
  intro hprop scheme context selector
  rw [encode_eq_iff hprop, ← htext]
  constructor
  · intro hhash
    by_cases hsame : declarationText a.value a.important = declarationText b.value b.important
    · exact .inl hsame
    · exact .inr ⟨hsame, hhash⟩
  · rintro (hsame | ⟨-, hhash⟩)
    · rw [declarationHash, declarationHash, hsame]
    · exact hhash

/-- A declaration with two blanks in a quoted string. -/
def twoBlanks : Declaration := ⟨['a'], "\"x  y\"".toList, false, some ⟨1, 1, []⟩⟩

/-- The same with one blank. -/
def oneBlank : Declaration := ⟨['a'], "\"x y\"".toList, false, some ⟨1, 10, []⟩⟩

/-- A declaration that is a mark and nothing else. -/
def onlyMark : Declaration := ⟨['b'], [], true, some ⟨1, 18, []⟩⟩

/-- One with the word that marks have. -/
def onlyWord : Declaration := ⟨['b'], "important".toList, false, some ⟨1, 31, []⟩⟩

/-- The text in which these declarations stand. -/
def contentsText : Text := "a:\"x  y\";a:\"x y\";b:!important;b:important".toList

/-- What it is read as. -/
def contentsTree : List Node := [twoBlanks, oneBlank, onlyMark, onlyWord].map .declaration

theorem ofText_contentsText : Node.ofText [] contentsText = .ok contentsTree := by
  have hspells : Item.Spells
      [.declaration "a:\"x  y\"".toList, .semicolon, .declaration "a:\"x y\"".toList, .semicolon,
        .declaration "b:!important".toList, .semicolon, .declaration "b:important".toList]
      contentsText := by
    have ha : IsRun "a:\"x  y\"".toList := by decide
    have ha' : IsRun "a:\"x y\"".toList := by decide
    have hb : IsRun "b:!important".toList := by decide
    have hb' : IsRun "b:important".toList := by decide
    refine ⟨?_, rfl⟩
    simp only [Item.LegalAll, Item.Legal, Item.isOpen, ha, ha', hb, hb']
    simp
  exact Node.ofText_eq_ok_iff.2 ⟨_, hspells, by decide, rfl⟩

/-- Blanks make no difference, whereas other values do. -/
theorem ClassName.declarationText_eq_iff_alike_contents :
    Node.ofText [] contentsText = .ok contentsTree ∧
      declarationText twoBlanks.value false = declarationText oneBlank.value false ∧
      declarationText oneBlank.value false ≠ declarationText onlyWord.value false := by
  have htwo : Node.Occurs (.declaration twoBlanks) contentsTree := .here
  have hone : Node.Occurs (.declaration oneBlank) contentsTree := .later .here
  have hword : Node.Occurs (.declaration onlyWord) contentsTree := .later (.later (.later .here))
  obtain ⟨hsame, -⟩ :=
    declarationText_eq_iff_alike ofText_contentsText ofText_contentsText htwo hone
    (fun h => by cases h) (fun h => by cases h)
  obtain ⟨hother, -⟩ := declarationText_eq_iff_alike ofText_contentsText ofText_contentsText hone
    hword (fun h => by cases h) (fun h => by cases h)
  refine ⟨ofText_contentsText, hsame.2 ⟨rfl, by decide⟩, ?_⟩
  intro heq
  exact absurd (hother.1 heq).value (by decide)

/-- Blanks in quotes are lost, so two values share a composite that differ in
    them. An empty value is lost too, so a mark shares one with its word. -/
theorem ClassName.declarationText_shared :
    Node.ofText [] contentsText = .ok contentsTree ∧
      declarationText twoBlanks.value twoBlanks.important =
        declarationText oneBlank.value oneBlank.important ∧
      twoBlanks.value.trim.squeezeUnquoted ≠ oneBlank.value.trim.squeezeUnquoted ∧
      declarationText onlyMark.value onlyMark.important =
        declarationText onlyWord.value onlyWord.important ∧
      onlyMark.important ≠ onlyWord.important := by
  refine ⟨ofText_contentsText, ?_, by decide, ?_, by decide⟩
  · rw [declarationText, declarationText, composite_eq_iff]
    decide
  · rw [declarationText, declarationText, composite_eq_iff]
    decide

/-! ## Groups -/

namespace Placement

variable {scheme : Scheme} {p q : Placement}

/-- Of two names a merge keeps the first one, unless the second one is of the
    same group. -/
theorem mem_merged_or_hash_eq (hsentinel : scheme.sentinel.length = 1) (p q : Placement) :
    ∃ merged, mergeClasses (.text (Text.join [' '] [p.name scheme, q.name scheme])) (some scheme)
        none = .ok (merged, none) ∧
      (p.name scheme ∈ merged.elim [] Text.words ∨ p.slot.hash scheme = q.slot.hash scheme) := by
  have hwords : ∀ t ∈ [p, q].map (name scheme), IsWord t := isWord_of_mem_names hsentinel
  have hmerge := mergeClasses_text scheme (Text.join [' '] ([p, q].map (name scheme)))
  rw [Text.words_join hwords] at hmerge
  refine ⟨_, hmerge, ?_⟩
  rw [Fragment.words_classText_ofTokens? hwords]
  by_cases hhash : p.slot.hash scheme = q.slot.hash scheme
  · exact .inr hhash
  · refine .inl (Fragment.mem_tokens_ofTokens.2 (.inr ⟨p.key scheme, ?_⟩))
    -- the second name has another key
    have hkey : q.key scheme ≠ p.key scheme := by
      rw [key, key, Ne, List.append_cancel_left_eq]
      exact fun h => hhash h.symm
    have hsplit : [p, q].map (name scheme) = [p.name scheme] ++ [q.name scheme] := rfl
    rw [hsplit, lastWith_append, lastWith_singleton, lastWith_singleton, groupKey?_name,
      groupKey?_name]
    simp [hkey]

/-- Slots that have one hash are alike, or different texts have it. -/
theorem alike_or_collision (hp : p.Plain) (hq : q.Plain)
    (h : p.slot.hash scheme = q.slot.hash scheme) :
    p.slot.Alike q.slot ∨
      p.slot.text ≠ q.slot.text ∧ p.slot.hash scheme = q.slot.hash scheme := by
  rw [← text_slot_eq_iff hp hq]
  by_cases htext : p.slot.text = q.slot.text
  · exact .inl htext
  · exact .inr ⟨htext, h⟩

end Placement

/-- Two rules, compiled from a text each or both from one, have the same
    composite for their groups if and only if their slots are alike: the
    labels of the blocks around them, put together, their normal selectors
    and their properties differ in blanks only. Where blocks are not nested,
    so do the labels one by one. A merge that is given the class names of
    both drops the first one only if the slots are alike, or if their
    composites, which differ, have one hash. -/
theorem Compiler.groupText_eq_iff_alike {c c' : Compiler} {source source' t t' : Text}
    {nodes nodes' : List Node} {rules rules' : List AtomicRule}
    (hread : Node.ofText source t = .ok nodes) (hread' : Node.ofText source' t' = .ok nodes')
    (h : (c.compile nodes).2.rules = .ok rules) (h' : (c'.compile nodes').2.rules = .ok rules') :
    rules = (c.placements nodes).map (Placement.rule c.scheme) ∧
    rules' = (c'.placements nodes').map (Placement.rule c'.scheme) ∧
    ∀ p ∈ c.placements nodes, ∀ q ∈ c'.placements nodes',
      (p.slot.text = q.slot.text ↔ p.slot.Alike q.slot) ∧
      (p.context.length ≤ 1 → q.context.length ≤ 1 → p.slot.Alike q.slot →
        p.slot.labels.map collapse = q.slot.labels.map collapse) ∧
      (c'.scheme = c.scheme → c.scheme.sentinel.length = 1 →
        ∃ merged, mergeClasses (.text (Text.join [' ']
            [(p.rule c.scheme).className, (q.rule c'.scheme).className])) (some c.scheme) none =
              .ok (merged, none) ∧
          ((p.rule c.scheme).className ∈ merged.elim [] Text.words ∨ p.slot.Alike q.slot ∨
            p.slot.text ≠ q.slot.text ∧ p.slot.hash c.scheme = q.slot.hash c.scheme)) := by
  refine ⟨rules_of_ok h, rules_of_ok h', ?_⟩
  intro p hp q hq
  have hpp : p.Plain := Placement.plain_of_ofText hread hp
  have hqp : q.Plain := Placement.plain_of_ofText hread' hq
  refine ⟨Placement.text_slot_eq_iff hpp hqp, Placement.labels_of_alike hpp hqp, ?_⟩
  intro hscheme hsentinel
  rw [hscheme]
  obtain ⟨merged, hmerge, hkept⟩ := Placement.mem_merged_or_hash_eq hsentinel p q
  exact ⟨merged, hmerge, hkept.imp_right (Placement.alike_or_collision hpp hqp)⟩

namespace Compiler

/-- A block in another one, and a block whose label is that of both put
    together. The rules in the first and the last one are for one selector. -/
def labelsText : Text :=
  ("@media a\x7bb  e\x7bc:d\x7d@media b\x7bc:d\x7d\x7d@media  a\x7bb e\x7bc:f\x7d\x7d" ++
    "@media amediab\x7bc:f\x7d").toList

/-- The declarations in it. -/
def labelled (value : Char) (column : Int) : Node :=
  .declaration ⟨['c'], [value], false, some ⟨1, column, []⟩⟩

/-- What it is read as. -/
def labelsTree : List Node :=
  [.block ⟨"media".toList, ['a']⟩
    [.rule ["b  e".toList] [labelled 'd' 15] (some ⟨1, 10, []⟩),
     .block ⟨"media".toList, ['b']⟩ [labelled 'd' 28] (some ⟨1, 19, []⟩)] (some ⟨1, 1, []⟩),
   .block ⟨"media".toList, ['a']⟩
    [.rule ["b e".toList] [labelled 'f' 47] (some ⟨1, 43, []⟩)] (some ⟨1, 33, []⟩),
   .block ⟨"media".toList, "amediab".toList⟩ [labelled 'f' 67] (some ⟨1, 52, []⟩)]

theorem ofText_labelsText : Node.ofText [] labelsText = .ok labelsTree := by
  have hspells : Item.Spells
      [.block "media".toList [' ', 'a']
        [.rule "b  e".toList [.declaration ['c', ':', 'd']],
         .block "media".toList [' ', 'b'] [.declaration ['c', ':', 'd']]],
       .block "media".toList [' ', ' ', 'a'] [.rule "b e".toList [.declaration ['c', ':', 'f']]],
       .block "media".toList " amediab".toList [.declaration ['c', ':', 'f']]] labelsText := by
    have ha : IsAtHead "media".toList [' ', 'a'] := by decide
    have hb : IsAtHead "media".toList [' ', 'b'] := by decide
    have ha' : IsAtHead "media".toList [' ', ' ', 'a'] := by decide
    have hab : IsAtHead "media".toList " amediab".toList := by decide
    have hbe : IsRun "b  e".toList := by decide
    have hbe' : IsRun "b e".toList := by decide
    have hd : IsRun ['c', ':', 'd'] := by decide
    have hf : IsRun ['c', ':', 'f'] := by decide
    refine ⟨?_, rfl⟩
    simp only [Item.LegalAll, Item.Legal, Item.isOpen, ha, hb, ha', hab, hbe, hbe', hd, hf]
    simp
  exact Node.ofText_eq_ok_iff.2 ⟨_, hspells, by decide, rfl⟩

/-- The declaration in the rule of the first block. -/
def firstPlacement : Placement where
  context     := [⟨"media".toList, ['a']⟩]
  selector    := "b  e".toList
  inRule      := true
  declaration := ⟨['c'], ['d'], false, some ⟨1, 15, []⟩⟩

/-- The one in the inner block. -/
def nestedPlacement : Placement where
  context     := [⟨"media".toList, ['a']⟩, ⟨"media".toList, ['b']⟩]
  selector    := []
  inRule      := false
  declaration := ⟨['c'], ['d'], false, some ⟨1, 28, []⟩⟩

/-- The one in the rule of the second block. -/
def secondPlacement : Placement where
  context     := [⟨"media".toList, ['a']⟩]
  selector    := "b e".toList
  inRule      := true
  declaration := ⟨['c'], ['f'], false, some ⟨1, 47, []⟩⟩

/-- The one in the last block. -/
def lastPlacement : Placement where
  context     := [⟨"media".toList, "amediab".toList⟩]
  selector    := []
  inRule      := false
  declaration := ⟨['c'], ['f'], false, some ⟨1, 67, []⟩⟩

theorem placements_labelsTree : freshCompiler.placements labelsTree =
    [firstPlacement, nestedPlacement, secondPlacement, lastPlacement] := rfl

theorem compile_labelsTree : (freshCompiler.compile labelsTree).2.rules =
    .ok (freshCompiler.trace labelsTree).rules := compile_rules_eq_ok_iff.2 ⟨rfl, rfl⟩

/-- The declarations for the one selector compete with each other, and not
    with the one in the inner block. -/
theorem groupText_eq_iff_alike_labels :
    Node.ofText [] labelsText = .ok labelsTree ∧
      firstPlacement.slot.text = secondPlacement.slot.text ∧
      firstPlacement.slot.labels.map collapse = secondPlacement.slot.labels.map collapse ∧
      firstPlacement.slot.text ≠ nestedPlacement.slot.text ∧
      ∃ merged, mergeClasses (.text (Text.join [' '] [(firstPlacement.rule .default).className,
        (nestedPlacement.rule .default).className])) (some .default) none = .ok (merged, none) := by
  obtain ⟨-, -, hall⟩ := groupText_eq_iff_alike ofText_labelsText ofText_labelsText
    compile_labelsTree compile_labelsTree
  rw [placements_labelsTree] at hall
  obtain ⟨hsame, hlabels, -⟩ := hall firstPlacement (by simp) secondPlacement (by simp)
  obtain ⟨hother, -, hmerge⟩ := hall firstPlacement (by simp) nestedPlacement (by simp)
  obtain ⟨merged, hmerged, -⟩ := hmerge rfl rfl
  have halike : firstPlacement.slot.Alike secondPlacement.slot :=
    ⟨by decide, by decide, by decide⟩
  refine ⟨ofText_labelsText, hsame.2 halike, hlabels (by decide) (by decide) halike, ?_, merged,
    hmerged⟩
  intro heq
  exact absurd (hother.1 heq).selector (by decide)

/-- The labels of two nested blocks put together are the label of another
    one, so rules for different conditions are of one group. -/
theorem groupText_shared :
    Node.ofText [] labelsText = .ok labelsTree ∧
      nestedPlacement ∈ freshCompiler.placements labelsTree ∧
      lastPlacement ∈ freshCompiler.placements labelsTree ∧
      nestedPlacement.slot.text = lastPlacement.slot.text ∧
      nestedPlacement.slot.labels.map collapse = ["mediaa".toList, "mediab".toList] ∧
      lastPlacement.slot.labels.map collapse = ["mediaamediab".toList] := by
  rw [placements_labelsTree]
  refine ⟨ofText_labelsText, by simp, by simp, ?_, by decide, by decide⟩
  rw [Slot.text, Slot.text, groupText, groupText, composite_eq_iff]
  decide

end Compiler

end StyleSlots
