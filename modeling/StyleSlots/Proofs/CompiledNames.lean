import StyleSlots.Proofs.ClassList.Composition
import StyleSlots.Proofs.ClassName.Generated
import StyleSlots.Proofs.Trace.Made

/-! # Merging the names of a compilation

    The compiler decides which slot a declaration fills, and the merger sees
    class names only. They still agree on who competes with whom.

    - **Winners**: for each group hash, in the order in which the hashes
      first occur, the name of the last placement with that hash.
    - **Main statement**: `mergeClasses_of_compiled`, what a merge of the
      names of any compilation keeps are the winners of its placements. -/

namespace StyleSlots

namespace Placement

/-- One name for each group hash among `ps`, in the order of the first
    placement with that hash: the name of the last placement with it. -/
def Winners (scheme : Scheme) (ps : List Placement) (names : List Text) : Prop :=
  List.Forall₂
    (fun hash name => ∃ p, lastWith (fun q => q.slot.hash scheme = hash) ps = some p ∧
      p.name scheme = name)
    (distinct (ps.map fun p => p.slot.hash scheme)) names

variable {scheme : Scheme}

theorem map_className_map_rule (scheme : Scheme) (ps : List Placement) :
    (ps.map (rule scheme)).map AtomicRule.className = ps.map (name scheme) := by
  rw [List.map_map]
  rfl

theorem isWord_of_mem_names (h : scheme.sentinel.length = 1) {ps : List Placement} :
    ∀ t ∈ ps.map (name scheme), Text.IsWord t := by
  intro t ht
  obtain ⟨p, _, rfl⟩ := List.mem_map.1 ht
  exact isWord_name h p

/-- Names are atomic tokens, whichever sentinel they have. -/
theorem atomicPairs_names (scheme : Scheme) (ps : List Placement) :
    Fragment.atomicPairs scheme (ps.map (name scheme)) =
      ps.map fun p => (p.key scheme, p.name scheme) := by
  unfold Fragment.atomicPairs
  rw [List.filterMap_map, ← List.filterMap_eq_map]
  apply List.filterMap_congr
  intro p _
  simp [groupKey?_name]

theorem classes_ofTokens_names (scheme : Scheme) (ps : List Placement) :
    (Fragment.ofTokens scheme (ps.map (name scheme))).classes.toList = [] := by
  apply List.eq_nil_iff_forall_not_mem.2
  intro token ht
  obtain ⟨hmem, hnone⟩ := Fragment.mem_classes_ofTokens.1 ht
  obtain ⟨p, _, rfl⟩ := List.mem_map.1 hmem
  rw [groupKey?_name] at hnone
  cases hnone

/-- The tokens that are left of names are those of the winners. -/
theorem winners_ofTokens (scheme : Scheme) (ps : List Placement) :
    Winners scheme ps (Fragment.ofTokens scheme (ps.map (name scheme))).tokens := by
  have hkeys : (distinct (ps.map fun p => p.slot.hash scheme)).map (scheme.sentinel ++ ·) =
      (lastPerKey (Fragment.atomicPairs scheme (ps.map (name scheme)))).map Prod.fst := by
    rw [map_fst_lastPerKey, atomicPairs_names, ← distinct_map (List.append_right_injective _),
      List.map_map, List.map_map]
    rfl
  unfold Winners Fragment.tokens OrderedMap.values
  rw [classes_ofTokens_names, List.nil_append, Fragment.groups_ofTokens]
  -- both lists are read off the pairs of a group key and the last name with it
  have hlast : List.Forall₂
      (fun key name => ∃ p, lastWith (fun q => q.key scheme = key) ps = some p ∧
        p.name scheme = name)
      ((lastPerKey (Fragment.atomicPairs scheme (ps.map (name scheme)))).map Prod.fst)
      ((lastPerKey (Fragment.atomicPairs scheme (ps.map (name scheme)))).map Prod.snd) := by
    rw [List.forall₂_map_left_iff, List.forall₂_map_right_iff, List.forall₂_same]
    rintro ⟨key, name⟩ hmem
    rw [mem_lastPerKey, atomicPairs_names, lastWith_map] at hmem
    obtain ⟨p, hp, heq⟩ := Option.map_eq_some_iff.1 hmem
    exact ⟨p, hp, (Prod.mk.inj heq).2⟩
  rw [← hkeys, List.forall₂_map_left_iff] at hlast
  apply hlast.imp
  rintro hash name ⟨p, hp, hname⟩
  refine ⟨p, ?_, hname⟩
  rw [← hp]
  apply lastWith_congr
  intro q _
  simp [key]

end Placement

/-! ## Merges of names -/

theorem fits_of_mem_pieces_text (scheme : Scheme) (t : Text) :
    ∀ p ∈ (Candidate.text t).pieces, p.Fits scheme :=
  Candidate.fits_ofClassText (some t)

/-- A list of texts is merged into the text of the fragment of their words. -/
theorem mergeClasses_texts (scheme : Scheme) (ts : List Text) (fixed : Bool) :
    mergeClasses (.list (ts.map .text) fixed) (some scheme) none =
      .ok ((Fragment.ofTokens? scheme (ts.flatMap Text.words)).map Fragment.classText, none) := by
  have hfit : ∀ p ∈ Candidate.piecesAll (ts.map .text), p.Fits scheme := by
    intro p hp
    obtain ⟨c, hc, hpc⟩ := Candidate.mem_piecesAll.1 hp
    obtain ⟨t, _, rfl⟩ := List.mem_map.1 hc
    exact fits_of_mem_pieces_text scheme t p hpc
  rw [@mergeClasses_list (some scheme) _ fixed hfit, Candidate.tokensAll_map_text]
  rfl

/-- A text is merged into the text of the fragment of its words. -/
theorem mergeClasses_text (scheme : Scheme) (t : Text) :
    mergeClasses (.text t) (some scheme) none =
      .ok ((Fragment.ofTokens? scheme t.words).map Fragment.classText, none) :=
  @Candidate.mergeClasses_of_fits (some scheme) _ _ rfl (fits_of_mem_pieces_text scheme t)

/-- The words of the text that tokens are merged into. -/
theorem Fragment.words_classText_ofTokens? {scheme : Scheme} {ts : List Text}
    (h : ∀ t ∈ ts, Text.IsWord t) :
    ((ofTokens? scheme ts).map classText).elim [] Text.words = (ofTokens scheme ts).tokens := by
  cases hmerged : ofTokens? scheme ts with
  | none =>
    rw [ofTokens?_eq_none_iff.1 hmerged]
    rfl
  | some f =>
    have hf := eq_ofTokens_of_ofTokens? hmerged
    have hfits : f.Fits scheme := hf ▸ fits_ofTokens h
    rw [Option.map_some, Option.elim_some, words_classText hfits, hf]

/-! ## Merges of compiled names -/

/-- A compilation makes one rule for each placement of its tree, each with a
    name of the shape that the merger expects. A merge of these names keeps
    the winners and nothing else. -/
theorem mergeClasses_of_compiled {c : Compiler} {nodes : List Node} {rules : List AtomicRule}
    (hsentinel : c.scheme.sentinel.length = 1) (h : (c.compile nodes).2.rules = .ok rules)
    (fixed : Bool) :
    rules = (c.placements nodes).map (Placement.rule c.scheme) ∧
      (c.compile nodes).1.names = c.names ++ rules.map AtomicRule.className ∧
      (∀ p ∈ c.placements nodes, ClassName.Generated c.scheme
        (ClassName.groupHash c.scheme (p.rule c.scheme).contextLabels
          (Selector.normalize p.selector) p.declaration.prop) (p.rule c.scheme).className) ∧
      ∃ merged,
        mergeClasses (.list ((rules.map AtomicRule.className).map .text) fixed)
          (some c.scheme) none = .ok (merged, none) ∧
        mergeClasses (.text (Text.join [' '] (rules.map AtomicRule.className)))
          (some c.scheme) none = .ok (merged, none) ∧
        (merged = none ↔ rules = []) ∧
        Placement.Winners c.scheme (c.placements nodes) (merged.elim [] Text.words) := by
  have hrules := Compiler.rules_of_ok h
  have hnames : rules.map AtomicRule.className =
      (c.placements nodes).map (Placement.name c.scheme) := by
    rw [hrules, Placement.map_className_map_rule]
  have hwords : ∀ name ∈ (c.placements nodes).map (Placement.name c.scheme),
      Text.IsWord name := Placement.isWord_of_mem_names hsentinel
  have hnone : Fragment.ofTokens? c.scheme ((c.placements nodes).map (Placement.name c.scheme)) =
      none ↔ rules = [] := by
    rw [Fragment.ofTokens?_eq_none_iff, hrules, List.map_eq_nil_iff, List.map_eq_nil_iff]
  have hlist := mergeClasses_texts c.scheme
    ((c.placements nodes).map (Placement.name c.scheme)) fixed
  rw [Text.flatMap_words hwords] at hlist
  have htext := mergeClasses_text c.scheme
    (Text.join [' '] ((c.placements nodes).map (Placement.name c.scheme)))
  rw [Text.words_join hwords] at htext
  rw [← hnames] at hlist htext hnone
  refine ⟨hrules, Compiler.names_of_ok h, fun p _ => Placement.generated_name hsentinel p, _,
    hlist, htext, by rw [Option.map_eq_none_iff, hnone], ?_⟩
  rw [hnames, Fragment.words_classText_ofTokens? hwords]
  exact Placement.winners_ofTokens _ _

/-- A compiler that has compiled nothing yet. -/
def freshCompiler : Compiler where
  scheme         := .default
  shorthandFirst := false

/-- A color is set for the element, then in a rule with two selectors, of
    which the second one is the element again, and then in a block. -/
def overridingTree : List Node :=
  [.declaration ⟨"color".toList, "red".toList, false, none⟩,
   .rule [":hover".toList, "&".toList]
     [.declaration ⟨"color".toList, "blue".toList, true, none⟩] none,
   .block ⟨"media".toList, "print".toList⟩
     [.declaration ⟨"color".toList, "black".toList, false, none⟩] none,
   .block ⟨"keyframes".toList, "fade".toList⟩ [] none]

theorem mergeClasses_of_compiled_overriding :
    freshCompiler.scheme.sentinel.length = 1 ∧
      ∃ rules, (freshCompiler.compile overridingTree).2.rules = .ok rules ∧
        rules.length = 4 ∧
        ∃ merged,
          mergeClasses (.list ((rules.map AtomicRule.className).map .text) false)
            (some freshCompiler.scheme) none = .ok (merged, none) ∧
          (merged = none ↔ rules = []) ∧
          Placement.Winners freshCompiler.scheme (freshCompiler.placements overridingTree)
            (merged.elim [] Text.words) := by
  -- no rule stands inside another one, so nothing is refused
  have hok : (freshCompiler.compile overridingTree).2.rules =
      .ok (freshCompiler.trace overridingTree).rules :=
    Compiler.compile_rules_eq_ok_iff.2 ⟨rfl, rfl⟩
  obtain ⟨_, _, _, merged, hlist, _, hnone, hwinners⟩ :=
    mergeClasses_of_compiled (c := freshCompiler) rfl hok false
  exact ⟨rfl, _, hok, rfl, merged, hlist, hnone, hwinners⟩

end StyleSlots
