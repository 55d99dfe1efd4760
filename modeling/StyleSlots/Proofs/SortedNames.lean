import StyleSlots.Proofs.Cascade.Placements
import StyleSlots.Proofs.Cascade.Refusal
import StyleSlots.Proofs.CompiledNames

/-! # Compiling with and without shorthands first

    To move the shorthands of a scope to the front should not decide anew
    who wins a slot. There is one case in which it does.

    - **One kind**: declarations of a scope keep their order among
      themselves, and so do declarations in its rules.
    - **Contested slots**: a declaration trades places with other
      declarations of its scope and may pass a rule between them. Where a
      slot is filled both by a scope and by a rule in it, the one may
      become last in the place of the other.
    - **Main statement**: `compile_sorted`, this is the only way in which a
      slot changes hands, and a merge keeps the names of all other slots,
      unless two of them share a hash. -/

namespace StyleSlots

/-! ## Slots -/

/-- A slot is contested in a tree if in one scope both a declaration of the
    scope and a declaration in one of its rules fill it. -/
def Slot.ContestedIn (scheme : Scheme) (tree : List Node) (s : Slot) : Prop :=
  ∃ context scope, Placement.Scope scheme tree context scope ∧
    (∃ d, .declaration d ∈ scope ∧ (Placement.direct context d).slot = s) ∧
    ∃ selectors nodes source, .rule selectors nodes source ∈ scope ∧
      ∃ p ∈ Placement.ofRule context selectors nodes, p.slot = s

namespace Compiler

/-- A compiler that moves shorthands to the front, or one that does not. -/
def sorting (c : Compiler) (shorthandFirst : Bool) : Compiler := { c with shorthandFirst }

/-- The placement that fills a slot last. -/
def lastFiller? (c : Compiler) (tree : List Node) (s : Slot) : Option Placement :=
  lastWith (fun p => p.slot = s) (c.placements tree)

/-- The class name that is made last for a slot. -/
def lastName? (c : Compiler) (tree : List Node) (s : Slot) : Option Text :=
  (c.lastFiller? tree s).map (Placement.name c.scheme)

variable (c : Compiler) (tree : List Node)

theorem perm_placements_sorting :
    ((c.sorting true).placements tree).Perm ((c.sorting false).placements tree) :=
  Placement.perm_ofTree_order c.scheme tree

/-- A slot that is not contested has the same last filler. -/
theorem lastFiller?_of_not_contested {s : Slot} (h : ¬ s.ContestedIn c.scheme tree) :
    (c.sorting true).lastFiller? tree s = (c.sorting false).lastFiller? tree s := by
  apply lastWith_eq_of_filter_eq
  refine Placement.filter_ofTree_order (s := s) (fun p hp => of_decide_eq_true hp) ?_
  intro context scope hscope _
  by_cases hdirect : ∃ d, .declaration d ∈ scope ∧ (Placement.direct context d).slot = s
  · right
    intro selectors nodes source hmem p hp
    by_contra hslot
    exact h ⟨context, scope, hscope, hdirect, selectors, nodes, source, hmem, p, hp,
      by simpa using hslot⟩
  · left
    intro d hd
    by_contra hslot
    exact hdirect ⟨d, hd, by simpa using hslot⟩

/-- Last fillers of one kind are the same. -/
theorem eq_of_inRule_eq {s : Slot} {p r : Placement}
    (hp : (c.sorting false).lastFiller? tree s = some p)
    (hr : (c.sorting true).lastFiller? tree s = some r) (hkind : p.inRule = r.inRule) : p = r := by
  have hp' := lastWith_and_of_eq_some (q := fun a => a.inRule = r.inRule) hp (by simpa using hkind)
  have hr' := lastWith_and_of_eq_some (q := fun a => a.inRule = r.inRule) hr (by simp)
  have hsame := lastWith_eq_of_filter_eq
    (Placement.filter_ofTree_order_kind c.scheme tree s r.inRule)
  have hsorted : lastWith (fun a => a.slot = s ∧ a.inRule = r.inRule)
      (Placement.ofTree c.scheme (Cascade.order tree)) = some r := by
    rw [← hr']
    exact lastWith_congr fun a _ => Bool.decide_and _ _
  -- both are the last of this kind, and those come in the same order
  have hplain : lastWith (fun a => a.slot = s ∧ a.inRule = r.inRule)
      (Placement.ofTree c.scheme tree) = some p := by
    rw [← hp']
    exact lastWith_congr fun a _ => Bool.decide_and _ _
  rw [hsorted, hplain] at hsame
  exact (Option.some.inj hsame).symm

/-- A slot has the same last filler, or one that is a declaration of a scope
    in one run and stands in a rule in the other. -/
theorem lastFiller?_sorting (s : Slot) :
    (c.sorting true).lastFiller? tree s = (c.sorting false).lastFiller? tree s ∨
      s.ContestedIn c.scheme tree ∧ ∃ p r, (c.sorting false).lastFiller? tree s = some p ∧
        (c.sorting true).lastFiller? tree s = some r ∧ p.inRule ≠ r.inRule := by
  have hmem : ∀ p, p ∈ (c.sorting true).placements tree ↔ p ∈ (c.sorting false).placements tree :=
    fun p => (c.perm_placements_sorting tree).mem_iff
  by_cases hcontested : s.ContestedIn c.scheme tree
  · cases hp : (c.sorting false).lastFiller? tree s with
    | none =>
      left
      rw [lastFiller?, lastWith_eq_none_iff] at hp ⊢
      exact fun p h => hp p ((hmem p).1 h)
    | some p =>
      cases hr : (c.sorting true).lastFiller? tree s with
      | none =>
        obtain ⟨hin, hslot⟩ := mem_of_lastWith hp
        rw [lastFiller?, lastWith_eq_none_iff] at hr
        rw [hr p ((hmem p).2 hin)] at hslot
        cases hslot
      | some r =>
        by_cases hkind : p.inRule = r.inRule
        · left
          rw [c.eq_of_inRule_eq tree hp hr hkind]
        · exact .inr ⟨hcontested, p, r, rfl, rfl, hkind⟩
  · exact .inl (c.lastFiller?_of_not_contested tree hcontested)

end Compiler

/-! ## What a merge keeps -/

/-- With a sentinel that ends in a line break no word is atomic: the blank in
    it ends every token. -/
theorem ClassName.groupKey?_of_isWord {scheme : Scheme} (hlength : scheme.sentinel.length ≠ 1)
    {t : Text} (ht : Text.IsWord t) : groupKey? scheme t = none := by
  rw [groupKey?_eq_none_iff]
  have hbreak : '\n' ∈ scheme.sentinel := by
    have hvalid := scheme.sentinel_valid
    generalize scheme.sentinel = sentinel at hvalid hlength
    unfold isSentinel at hvalid
    split at hvalid
    · exact absurd rfl hlength
    · simp
    · cases hvalid
  by_contra hatomic
  rw [Bool.not_eq_false, isAtomic, Bool.and_eq_true, List.isPrefixOf_iff_prefix] at hatomic
  have hblank := ht.no_blank _ (hatomic.1.subset hbreak)
  revert hblank
  decide

namespace Placement

variable {scheme : Scheme} {ps qs : List Placement}

/-- Whether no other slot that is filled in `ps` has the hash of `s`. -/
def OwnsHash (scheme : Scheme) (ps : List Placement) (s : Slot) : Prop :=
  ∀ r ∈ ps, r.slot.hash scheme = s.hash scheme → r.slot = s

/-- Where a hash belongs to one slot only, the last name with its key is the
    name of the last placement for the slot. -/
theorem lastWith_groupKey?_names (hperm : qs.Perm ps) {k : Text}
    (hslot : ∀ p ∈ ps, p.key scheme = k → OwnsHash scheme ps p.slot ∧
      (lastWith (fun r => r.slot = p.slot) qs).map (name scheme) =
        (lastWith (fun r => r.slot = p.slot) ps).map (name scheme)) :
    lastWith (fun t => ClassName.groupKey? scheme t = some k) (qs.map (name scheme)) =
      lastWith (fun t => ClassName.groupKey? scheme t = some k) (ps.map (name scheme)) := by
  rw [lastWith_map, lastWith_map]
  simp only [groupKey?_name]
  by_cases h : ∃ p ∈ ps, p.key scheme = k
  · obtain ⟨p, hp, rfl⟩ := h
    obtain ⟨howns, hlast⟩ := hslot p hp rfl
    -- having the key and filling the slot of `p` are the same
    have hsame : ∀ rs : List Placement, (∀ r ∈ rs, r ∈ ps) →
        lastWith (fun r => some (r.key scheme) = some (p.key scheme)) rs =
          lastWith (fun r => r.slot = p.slot) rs := by
      intro rs hrs
      apply lastWith_congr
      intro r hr
      rw [decide_eq_decide, Option.some.injEq, key, key, List.append_cancel_left_eq]
      exact ⟨howns r (hrs r hr), fun heq => by rw [heq]⟩
    rw [hsame qs fun r hr => hperm.mem_iff.1 hr, hsame ps fun _ hr => hr]
    exact hlast
  · have hnone : ∀ rs : List Placement, (∀ r ∈ rs, r ∈ ps) →
        lastWith (fun r => some (r.key scheme) = some k) rs = none := by
      intro rs hrs
      rw [lastWith_eq_none_iff]
      intro r hr
      rw [decide_eq_false_iff_not, Option.some.injEq]
      exact fun heq => h ⟨r, hrs r hr, heq⟩
    rw [hnone qs fun r hr => hperm.mem_iff.1 hr, hnone ps fun _ hr => hr]

/-- A merge of the names keeps a token in both orders or in none. -/
theorem mem_tokens_words_congr (hperm : qs.Perm ps) {token : Text}
    (hslot : ∀ p ∈ ps, ClassName.groupKey? scheme token = some (p.key scheme) →
      OwnsHash scheme ps p.slot ∧ (lastWith (fun r => r.slot = p.slot) qs).map (name scheme) =
        (lastWith (fun r => r.slot = p.slot) ps).map (name scheme)) :
    token ∈ (Fragment.ofTokens scheme ((qs.map (name scheme)).flatMap Text.words)).tokens ↔
      token ∈ (Fragment.ofTokens scheme ((ps.map (name scheme)).flatMap Text.words)).tokens := by
  have hmem : token ∈ (qs.map (name scheme)).flatMap Text.words ↔
      token ∈ (ps.map (name scheme)).flatMap Text.words :=
    ((hperm.map _).flatMap_right _).mem_iff
  refine Fragment.mem_tokens_ofTokens_congr hmem ?_
  intro k hk
  -- a name is one word or, with a line break in the sentinel, two plain ones
  by_cases hlength : scheme.sentinel.length = 1
  · rw [Text.flatMap_words (isWord_of_mem_names hlength),
      Text.flatMap_words (isWord_of_mem_names hlength)]
    refine lastWith_groupKey?_names hperm ?_
    rintro p hp rfl
    exact hslot p hp hk
  · have hnone : ∀ ts : List Text,
        lastWith (fun t => ClassName.groupKey? scheme t = some k) (ts.flatMap Text.words) =
          none := by
      intro ts
      rw [lastWith_eq_none_iff]
      intro t ht
      rw [ClassName.groupKey?_of_isWord hlength (Text.isWord_of_mem_flatMap_words t ht)]
      rfl
    rw [hnone, hnone]

/-- Of the names with one key, a merge keeps the one that is written last. -/
theorem mem_tokens_concat_iff {p r : Placement} (hlength : scheme.sentinel.length = 1)
    (hkeys : p.key scheme = r.key scheme) :
    p.name scheme ∈ (Fragment.ofTokens scheme
      (((ps ++ [r]).map (name scheme)).flatMap Text.words)).tokens ↔
        p.name scheme = r.name scheme := by
  have hlast : lastWith (fun t => ClassName.groupKey? scheme t =
      some (r.key scheme)) ((ps ++ [r]).map (name scheme)) = some (r.name scheme) := by
    rw [List.map_append, List.map_singleton]
    apply lastWith_concat_of_pos
    rw [groupKey?_name, decide_eq_true_iff]
  rw [Text.flatMap_words (isWord_of_mem_names hlength), Fragment.mem_tokens_ofTokens]
  constructor
  · rintro (⟨_, hnone⟩ | ⟨k, hkey⟩)
    · rw [groupKey?_name] at hnone
      cases hnone
    · have hown := of_decide_eq_true (mem_of_lastWith hkey).2
      rw [groupKey?_name, hkeys] at hown
      rw [← hown, hlast] at hkey
      exact (Option.some.inj hkey).symm
  · intro hname
    rw [hname]
    exact .inr ⟨_, hlast⟩

end Placement

/-! ## Two runs -/

namespace Compiler

/-- Whether a tree is refused, and why, does not depend on its order. -/
theorem refusal_trace (c : Compiler) (tree : List Node) :
    (c.trace tree).refusal = (Trace.ofTree c.scheme tree).refusal := by
  rw [trace, prepare]
  by_cases hfirst : c.shorthandFirst = true
  · rw [if_pos hfirst, Trace.refusal_ofTree_order]
  · rw [if_neg hfirst]

theorem compile_sorting_ok {c : Compiler} {tree : List Node} {rules : List AtomicRule}
    (h : (c.compile tree).2.rules = .ok rules) (shorthandFirst : Bool) :
    ((c.sorting shorthandFirst).compile tree).2.rules =
      .ok (((c.sorting shorthandFirst).placements tree).map (Placement.rule c.scheme)) := by
  have hnone : ((c.sorting shorthandFirst).trace tree).refusal = none := by
    have hrefusal := (compile_rules_eq_ok_iff.1 h).1
    rw [refusal_trace] at hrefusal ⊢
    exact hrefusal
  have hok := compile_rules_eq_ok_iff.2 ⟨hnone, rfl⟩
  rw [hok, rules_of_ok hok]
  rfl

/-- A tree that is compiled in one of the two ways is compiled in the other
    one too. Each slot has the same last name in both, unless it is
    contested and changes hands between a scope and a rule in it. A merge of
    the names keeps the same ones, but for those of slots that have another
    last name or share their hash. -/
theorem compile_sorted {c : Compiler} {tree : List Node} {rules : List AtomicRule}
    (h : (c.compile tree).2.rules = .ok rules) (fixed : Bool) :
    ∃ plain sorted,
      ((c.sorting false).compile tree).2.rules = .ok plain ∧
      ((c.sorting true).compile tree).2.rules = .ok sorted ∧
      plain = ((c.sorting false).placements tree).map (Placement.rule c.scheme) ∧
      sorted = ((c.sorting true).placements tree).map (Placement.rule c.scheme) ∧
      (∀ s, (c.sorting true).lastName? tree s = (c.sorting false).lastName? tree s ∨
        s.ContestedIn c.scheme tree ∧ ∃ p r, (c.sorting false).lastFiller? tree s = some p ∧
          (c.sorting true).lastFiller? tree s = some r ∧ p.inRule ≠ r.inRule) ∧
      ∃ merged mergedSorted,
        mergeClasses (.list ((plain.map AtomicRule.className).map .text) fixed)
          (some c.scheme) none = .ok (merged, none) ∧
        mergeClasses (.list ((sorted.map AtomicRule.className).map .text) fixed)
          (some c.scheme) none = .ok (mergedSorted, none) ∧
        ∀ name, (∀ p ∈ (c.sorting false).placements tree,
            ClassName.groupKey? c.scheme name = some (p.key c.scheme) →
            Placement.OwnsHash c.scheme ((c.sorting false).placements tree) p.slot ∧
              (c.sorting true).lastName? tree p.slot = (c.sorting false).lastName? tree p.slot) →
          (name ∈ mergedSorted.elim [] Text.words ↔ name ∈ merged.elim [] Text.words) := by
  refine ⟨_, _, compile_sorting_ok h false, compile_sorting_ok h true, rfl, rfl, ?_, _, _,
    mergeClasses_texts c.scheme _ fixed, mergeClasses_texts c.scheme _ fixed, ?_⟩
  · intro s
    rcases c.lastFiller?_sorting tree s with hsame | hother
    · left
      rw [lastName?, lastName?, hsame]
      rfl
    · exact .inr hother
  · intro name hslot
    rw [Fragment.words_classText_ofTokens? Text.isWord_of_mem_flatMap_words,
      Fragment.words_classText_ofTokens? Text.isWord_of_mem_flatMap_words,
      Placement.map_className_map_rule, Placement.map_className_map_rule]
    exact Placement.mem_tokens_words_congr (c.perm_placements_sorting tree) hslot

/-- Where no slot is filled in both kinds, none changes hands. -/
theorem lastName?_sorting_of_kinds {c : Compiler} {tree : List Node}
    (h : ∀ p ∈ (c.sorting false).placements tree, ∀ r ∈ (c.sorting false).placements tree,
      p.slot = r.slot → p.inRule = r.inRule) (s : Slot) :
    (c.sorting true).lastName? tree s = (c.sorting false).lastName? tree s := by
  have hmem : ∀ r ∈ (c.sorting true).placements tree, r ∈ (c.sorting false).placements tree :=
    fun r => (c.perm_placements_sorting tree).mem_iff.1
  rcases c.lastFiller?_sorting tree s with hsame | ⟨_, p, r, hp, hr, hkind⟩
  · rw [lastName?, lastName?, hsame]
    rfl
  · obtain ⟨hpmem, hpslot⟩ := mem_of_lastWith hp
    obtain ⟨hrmem, hrslot⟩ := mem_of_lastWith hr
    refine absurd (h p hpmem r (hmem r hrmem) ?_) hkind
    rw [of_decide_eq_true hpslot, of_decide_eq_true hrslot]

/-- Both at the top level and in a rule a shorthand stands behind a property
    that it sets. The slots of the rule are other ones. -/
def shelteredTree : List Node :=
  [.declaration ⟨"margin-top".toList, "1px".toList, false, none⟩,
   .rule [":hover".toList]
     [.declaration ⟨"margin-top".toList, "2px".toList, false, none⟩,
      .declaration ⟨"margin".toList, "0".toList, false, none⟩] none,
   .declaration ⟨"margin".toList, "0".toList, false, none⟩]

theorem compile_sorted_sheltered :
    ∃ rules, (freshCompiler.compile shelteredTree).2.rules = .ok rules ∧
      ∃ plain sorted merged mergedSorted,
        ((freshCompiler.sorting false).compile shelteredTree).2.rules = .ok plain ∧
        ((freshCompiler.sorting true).compile shelteredTree).2.rules = .ok sorted ∧
        mergeClasses (.list ((plain.map AtomicRule.className).map .text) false)
          (some .default) none = .ok (merged, none) ∧
        mergeClasses (.list ((sorted.map AtomicRule.className).map .text) false)
          (some .default) none = .ok (mergedSorted, none) ∧
        ∀ name, name ∈ mergedSorted.elim [] Text.words ↔ name ∈ merged.elim [] Text.words := by
  have hok : (freshCompiler.compile shelteredTree).2.rules =
      .ok (freshCompiler.trace shelteredTree).rules := compile_rules_eq_ok_iff.2 ⟨rfl, rfl⟩
  have hhashes : ((freshCompiler.sorting false).placements shelteredTree).map
      (fun p => p.slot.hash .default) =
        ["3o4d".toList, "ejuc".toList, "e6bz".toList, "36yi".toList] := by decide +kernel
  have hnodup : (((freshCompiler.sorting false).placements shelteredTree).map
      fun p => p.slot.hash .default).Nodup := by
    rw [hhashes]
    decide
  have howns : ∀ p ∈ (freshCompiler.sorting false).placements shelteredTree,
      Placement.OwnsHash .default ((freshCompiler.sorting false).placements shelteredTree) p.slot :=
    fun p hp r hr heq => congrArg Placement.slot (List.inj_on_of_nodup_map hnodup hr hp heq)
  have hlast := @lastName?_sorting_of_kinds freshCompiler shelteredTree (by decide)
  obtain ⟨plain, sorted, hplain, hsorted, _, _, _, merged, mergedSorted, hmerged, hmergedSorted,
    hsame⟩ := compile_sorted hok false
  exact ⟨_, hok, plain, sorted, merged, mergedSorted, hplain, hsorted, hmerged, hmergedSorted,
    fun name => hsame name fun p hp _ => ⟨howns p hp, hlast p.slot⟩⟩

/-! ## Slots that change hands -/

/-- The first declaration passes the rule when the shorthand takes its
    place, and wins the slot that the rule has won before. -/
def passingTree : List Node :=
  [.declaration ⟨"margin-top".toList, "1px".toList, false, none⟩,
   .rule ["&".toList] [.declaration ⟨"margin-top".toList, "2px".toList, false, none⟩] none,
   .declaration ⟨"margin".toList, "0".toList, false, none⟩]

/-- The second and the third property have the same hash. -/
def collidingTree : List Node :=
  [.declaration ⟨"row-gap".toList, "1px".toList, false, none⟩,
   .declaration ⟨"--rqsh".toList, "2px".toList, false, none⟩,
   .declaration ⟨"gap".toList, "0".toList, false, none⟩]

/-- The placement of the property that the shorthand sets. -/
def constituentPlacement : Placement :=
  .direct [] ⟨"row-gap".toList, "1px".toList, false, none⟩

/-- The placement of the property that collides with the shorthand. -/
def collidingPlacement : Placement :=
  .direct [] ⟨"--rqsh".toList, "2px".toList, false, none⟩

/-- The placement of the shorthand. -/
def shorthandPlacement : Placement := .direct [] ⟨"gap".toList, "0".toList, false, none⟩

theorem lastName?_passing :
    (freshCompiler.sorting true).lastName? passingTree ⟨[], "&".toList, "margin-top".toList⟩ ≠
      (freshCompiler.sorting false).lastName? passingTree
        ⟨[], "&".toList, "margin-top".toList⟩ := by
  have hplain : (freshCompiler.sorting false).lastFiller? passingTree
      ⟨[], "&".toList, "margin-top".toList⟩ =
        some ⟨[], "&".toList, true, ⟨"margin-top".toList, "2px".toList, false, none⟩⟩ := by
    decide +kernel
  have hsorted : (freshCompiler.sorting true).lastFiller? passingTree
      ⟨[], "&".toList, "margin-top".toList⟩ =
        some ⟨[], [], false, ⟨"margin-top".toList, "1px".toList, false, none⟩⟩ := by
    decide +kernel
  rw [lastName?, lastName?, hplain, hsorted, Option.map_some, Option.map_some, ne_eq,
    Option.some.injEq]
  apply Placement.name_ne
  decide +kernel

/-- In one run the shorthand is the last with its hash, in the other one the
    property that collides with it. -/
theorem merge_colliding :
    ∃ merged mergedSorted name,
      mergeClasses (.list ((((freshCompiler.sorting false).placements collidingTree).map
        (Placement.name .default)).map .text) false) (some .default) none = .ok (merged, none) ∧
      mergeClasses (.list ((((freshCompiler.sorting true).placements collidingTree).map
        (Placement.name .default)).map .text) false) (some .default) none =
          .ok (mergedSorted, none) ∧
      name ∈ merged.elim [] Text.words ∧ name ∉ mergedSorted.elim [] Text.words := by
  have hplain : (freshCompiler.sorting false).placements collidingTree =
      [constituentPlacement, collidingPlacement] ++ [shorthandPlacement] := by decide +kernel
  have hsorted : (freshCompiler.sorting true).placements collidingTree =
      [shorthandPlacement, constituentPlacement] ++ [collidingPlacement] := by decide +kernel
  have hkeys : shorthandPlacement.key .default = collidingPlacement.key .default := by
    decide +kernel
  have hname : shorthandPlacement.name .default ≠ collidingPlacement.name .default := by
    apply Placement.name_ne
    decide +kernel
  refine ⟨_, _, shorthandPlacement.name .default, mergeClasses_texts _ _ false,
    mergeClasses_texts _ _ false, ?_, ?_⟩
  · rw [Fragment.words_classText_ofTokens? Text.isWord_of_mem_flatMap_words, hplain,
      Placement.mem_tokens_concat_iff rfl rfl]
  · rw [Fragment.words_classText_ofTokens? Text.isWord_of_mem_flatMap_words, hsorted,
      Placement.mem_tokens_concat_iff rfl hkeys]
    exact hname

/-- To move shorthands may let another placement win a slot, and may let a
    merge keep another name even where all slots are won as before. -/
theorem sorting_changes_winners :
    (∃ plain sorted, ((freshCompiler.sorting false).compile passingTree).2.rules = .ok plain ∧
      ((freshCompiler.sorting true).compile passingTree).2.rules = .ok sorted ∧
      (freshCompiler.sorting true).lastName? passingTree ⟨[], "&".toList, "margin-top".toList⟩ ≠
        (freshCompiler.sorting false).lastName? passingTree
          ⟨[], "&".toList, "margin-top".toList⟩) ∧
      ∃ plain sorted merged mergedSorted name,
        ((freshCompiler.sorting false).compile collidingTree).2.rules = .ok plain ∧
        ((freshCompiler.sorting true).compile collidingTree).2.rules = .ok sorted ∧
        (∀ s, (freshCompiler.sorting true).lastName? collidingTree s =
          (freshCompiler.sorting false).lastName? collidingTree s) ∧
        mergeClasses (.list ((plain.map AtomicRule.className).map .text) false)
          (some .default) none = .ok (merged, none) ∧
        mergeClasses (.list ((sorted.map AtomicRule.className).map .text) false)
          (some .default) none = .ok (mergedSorted, none) ∧
        name ∈ merged.elim [] Text.words ∧ name ∉ mergedSorted.elim [] Text.words := by
  have hok : ∀ tree, (freshCompiler.trace tree).refusal = none →
      (freshCompiler.compile tree).2.rules = .ok (freshCompiler.trace tree).rules :=
    fun tree h => compile_rules_eq_ok_iff.2 ⟨h, rfl⟩
  have hpassing := hok passingTree rfl
  have hcolliding := hok collidingTree rfl
  obtain ⟨merged, mergedSorted, name, hmerged, hmergedSorted, hin, hout⟩ := merge_colliding
  refine ⟨⟨_, _, compile_sorting_ok hpassing false, compile_sorting_ok hpassing true,
    lastName?_passing⟩, _, _, merged, mergedSorted, name, compile_sorting_ok hcolliding false,
    compile_sorting_ok hcolliding true, lastName?_sorting_of_kinds (by decide), ?_, ?_, hin, hout⟩
  · rw [Placement.map_className_map_rule]
    exact hmerged
  · rw [Placement.map_className_map_rule]
    exact hmergedSorted

end Compiler

end StyleSlots
