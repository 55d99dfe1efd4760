import StyleSlots.Proofs.ClassList.Calls

/-! # The last of a group wins

    - **Rule**: what a merge has to leave behind of the tokens that it
      meets. Plain classes stay, each where it was first seen. Of the
      generated names of a group only the last one stays, in the place
      where the group was first seen.
    - **Main statement**: `mergeGroups_lastOfGroup`, merging follows this
      rule for every argument that is built from texts, data, lists and
      fragments that come out of merges. -/

namespace StyleSlots

/-! ## The rule -/

/-- What a fragment holds when the tokens `ts` were met from left to right
    and nothing else was. -/
structure Fragment.LastOfGroup (scheme : Scheme) (ts : List Text) (f : Fragment) : Prop where
  /-- The plain classes are the distinct tokens that are not atomic, as
      they were first seen. -/
  classes : f.classes.toList = distinct (ts.filter fun t => ! ClassName.isAtomic scheme t)
  /-- The group keys are those of the atomic tokens, as they were first seen. -/
  keys : f.groups.keys = distinct (ts.filterMap (ClassName.groupKey? scheme))
  /-- The name of a group is the last token with its key. -/
  last : ∀ key name, (key, name) ∈ f.groups.toList →
    lastWith (fun t => ClassName.groupKey? scheme t = some key) ts = some name
  /-- A name stands under its own key. -/
  own_key : ∀ key name, (key, name) ∈ f.groups.toList →
    ClassName.groupKey? scheme name = some key
  /-- No plain class is atomic. -/
  plain : ∀ name ∈ f.classes.toList, ClassName.isAtomic scheme name = false
  /-- No two tokens share a key. -/
  key_inj : ∀ s ∈ f.tokens, ∀ t ∈ f.tokens, ∀ key,
    ClassName.groupKey? scheme s = some key → ClassName.groupKey? scheme t = some key → s = t
  /-- No token is held twice. -/
  nodup : f.tokens.Nodup
  /-- No token is made up. -/
  subset : ∀ t ∈ f.tokens, t ∈ ts
  /-- No token is lost, unless another one of its group has its place. -/
  kept : ∀ t ∈ ts, t ∈ f.tokens ∨ ∃ key name, ClassName.groupKey? scheme t = some key ∧
    (key, name) ∈ f.groups.toList ∧ name ≠ t

/-! ## Fragments of tokens follow the rule -/

namespace Fragment

variable {scheme : Scheme} {ts : List Text}

theorem keys_ofTokens :
    (ofTokens scheme ts).groups.keys = distinct (ts.filterMap (ClassName.groupKey? scheme)) := by
  unfold OrderedMap.keys
  rw [groups_ofTokens, map_fst_lastPerKey, atomicPairs, List.map_filterMap]
  simp [Function.comp_def]

theorem last_ofTokens {key name : Text} (h : (key, name) ∈ (ofTokens scheme ts).groups.toList) :
    lastWith (fun t => ClassName.groupKey? scheme t = some key) ts = some name := by
  rw [groups_ofTokens, mem_lastPerKey, lastWith_atomicPairs] at h
  obtain ⟨t, ht, heq⟩ := Option.map_eq_some_iff.1 h
  cases heq
  exact ht

theorem own_key_ofTokens {key name : Text}
    (h : (key, name) ∈ (ofTokens scheme ts).groups.toList) :
    ClassName.groupKey? scheme name = some key := by
  simpa using (mem_of_lastWith (last_ofTokens h)).2

/-- A name that is held and has a key stands under it. -/
theorem mem_groups_ofTokens {key name : Text} (h : name ∈ (ofTokens scheme ts).tokens)
    (hk : ClassName.groupKey? scheme name = some key) :
    (key, name) ∈ (ofTokens scheme ts).groups.toList := by
  unfold tokens at h
  rw [List.mem_append, mem_classes_ofTokens, mem_values] at h
  rcases h with ⟨_, hnone⟩ | ⟨key', hmem⟩
  · rw [hk] at hnone
    cases hnone
  · have hkey := own_key_ofTokens hmem
    rw [hk] at hkey
    cases hkey
    exact hmem

theorem key_inj_ofTokens {s t key : Text} (hs : s ∈ (ofTokens scheme ts).tokens)
    (ht : t ∈ (ofTokens scheme ts).tokens) (hsk : ClassName.groupKey? scheme s = some key)
    (htk : ClassName.groupKey? scheme t = some key) : s = t := by
  have hs' := last_ofTokens (mem_groups_ofTokens hs hsk)
  have ht' := last_ofTokens (mem_groups_ofTokens ht htk)
  rw [hs'] at ht'
  exact Option.some.inj ht'

theorem nodup_ofTokens : (ofTokens scheme ts).tokens.Nodup := by
  unfold tokens
  rw [List.nodup_append]
  refine ⟨(ofTokens scheme ts).classes.nodup, ?_, ?_⟩
  · -- two names that are equal have one key, and keys are distinct
    apply List.Nodup.map_on _ (List.Nodup.of_map _ (ofTokens scheme ts).groups.nodup)
    rintro ⟨k, m⟩ hm ⟨l, n⟩ hn heq
    have hk := own_key_ofTokens hm
    have hl := own_key_ofTokens hn
    simp only at heq
    rw [heq, hl] at hk
    cases hk
    rw [heq]
  · -- a plain class has no key
    rintro s hs t ht rfl
    obtain ⟨key, hmem⟩ := mem_values.1 ht
    have hkey := own_key_ofTokens hmem
    rw [(mem_classes_ofTokens.1 hs).2] at hkey
    cases hkey

theorem kept_ofTokens {t : Text} (ht : t ∈ ts) :
    t ∈ (ofTokens scheme ts).tokens ∨ ∃ key name, ClassName.groupKey? scheme t = some key ∧
      (key, name) ∈ (ofTokens scheme ts).groups.toList ∧ name ≠ t := by
  cases hk : ClassName.groupKey? scheme t with
  | none => exact .inl (List.mem_append_left _ (mem_classes_ofTokens.2 ⟨ht, hk⟩))
  | some key =>
    obtain ⟨name, hname⟩ := exists_group_ofTokens ht hk
    by_cases h : name = t
    · subst h
      exact .inl (List.mem_append_right _ (mem_values.2 ⟨key, hname⟩))
    · exact .inr ⟨key, name, rfl, hname, h⟩

theorem lastOfGroup_ofTokens : (ofTokens scheme ts).LastOfGroup scheme ts where
  classes := by
    rw [classes_ofTokens]
    congr 1
    apply List.filter_congr
    intro t _
    simp [ClassName.groupKey?_eq_none_iff]
  keys := keys_ofTokens
  last _ _ := last_ofTokens
  own_key _ _ := own_key_ofTokens
  plain _ h := ClassName.groupKey?_eq_none_iff.1 (mem_classes_ofTokens.1 h).2
  key_inj _ hs _ ht _ := key_inj_ofTokens hs ht
  nodup := nodup_ofTokens
  subset _ := mem_of_mem_tokens_ofTokens
  kept _ := kept_ofTokens

end Fragment

/-! ## Merging follows the rule -/

/-- A merge into a fragment answers nothing if its argument has no tokens.
    Otherwise it answers the fragment that the last tokens of each group
    make. -/
theorem mergeGroups_lastOfGroup {scheme : Option Scheme} {argument : Candidate}
    (hlist : argument.arguments? ≠ none)
    (hbuilt : argument.BuiltUnder (scheme.getD .default)) :
    ∃ merged, mergeGroups argument scheme none = .ok (merged, none) ∧
      (merged = none ↔ argument.argumentTokens = []) ∧
      ∀ f, merged = some f →
        f.LastOfGroup (scheme.getD .default) argument.argumentTokens := by
  obtain ⟨candidates, hcandidates⟩ := Option.ne_none_iff_exists'.1 hlist
  refine ⟨_, Candidate.mergeGroups_of_fits hcandidates hbuilt.fits,
    Fragment.ofTokens?_eq_none_iff, ?_⟩
  intro f hf
  rw [← Fragment.eq_ofTokens_of_ofTokens? hf]
  exact Fragment.lastOfGroup_ofTokens

/-- A text, a list with nothing in one of its places, and a fragment that was
    merged before: its name overrules that of the text. -/
def nestedArgument : Candidate :=
  .list [.text "foo _aaaabbbb".toList, .list [.datum .absent, .text "_bbbbcccc foo".toList] true,
    .fragment (.ofLists ["bar".toList] [("_aaaa".toList, "_aaaadddd".toList)])]

theorem mergeGroups_lastOfGroup_nested :
    nestedArgument.arguments? ≠ none ∧ nestedArgument.BuiltUnder .default ∧
      ∃ merged, mergeGroups nestedArgument none none = .ok (merged, none) ∧
        (merged = none ↔ nestedArgument.argumentTokens = []) ∧
        ∀ f, merged = some f → f.LastOfGroup .default nestedArgument.argumentTokens := by
  have hlist : nestedArgument.arguments? ≠ none := by simp [nestedArgument, Candidate.arguments?]
  have hinner : ∀ c ∈ [Candidate.datum .absent, .text "_bbbbcccc foo".toList],
      c.BuiltUnder .default := by
    intro c hc
    simp only [List.mem_cons, List.not_mem_nil, or_false] at hc
    rcases hc with rfl | rfl
    · exact .datum _
    · exact .text _
  have hbuilt : nestedArgument.BuiltUnder .default := by
    apply Candidate.BuiltUnder.list
    intro c hc
    simp only [List.mem_cons, List.not_mem_nil, or_false] at hc
    rcases hc with rfl | rfl | rfl
    · exact .text _
    · exact .list _ _ hinner
    · exact .fragment (.text "bar _aaaadddd".toList) _ (.text _) rfl
  exact ⟨hlist, hbuilt, mergeGroups_lastOfGroup hlist hbuilt⟩

end StyleSlots
