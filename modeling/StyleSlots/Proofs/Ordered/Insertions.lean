import Mathlib.Data.List.Basic
import Mathlib.Data.List.Induction
import Mathlib.Data.List.Nodup
import StyleSlots.Ordered.Map
import StyleSlots.Ordered.Set

/-! # What insertions leave behind

    An ordered set or map is told by the list of what was inserted:

    - **Sets**: every element once, in the place where it came first.
    - **Maps**: every key once, in the place where it came first, with the
      value that came with it last.

    The right-hand sides say so without a set or a map, so they are what
    the theorems about merging are stated with. -/

namespace StyleSlots

variable {α β κ ν : Type}

/-! ## The last element with a property -/

/-- The last element of a list that has a property. -/
def lastWith (p : α → Bool) (xs : List α) : Option α := (xs.filter p).getLast?

@[simp] theorem lastWith_nil (p : α → Bool) : lastWith p [] = none := rfl

theorem lastWith_append (p : α → Bool) (xs ys : List α) :
    lastWith p (xs ++ ys) = (lastWith p ys).or (lastWith p xs) := by
  unfold lastWith
  rw [List.filter_append, List.getLast?_append]

theorem lastWith_singleton (p : α → Bool) (x : α) :
    lastWith p [x] = if p x then some x else none := by
  unfold lastWith
  by_cases h : p x <;> simp [h]

theorem lastWith_concat_of_pos {p : α → Bool} {x : α} (h : p x = true) (xs : List α) :
    lastWith p (xs ++ [x]) = some x := by
  rw [lastWith_append, lastWith_singleton, if_pos h, Option.some_or]

theorem lastWith_eq_none_iff {p : α → Bool} {xs : List α} :
    lastWith p xs = none ↔ ∀ x ∈ xs, p x = false := by
  unfold lastWith
  rw [List.getLast?_eq_none_iff, List.filter_eq_nil_iff]
  simp

/-- What is found is an element of the list and has the property. -/
theorem mem_of_lastWith {p : α → Bool} {xs : List α} {x : α} (h : lastWith p xs = some x) :
    x ∈ xs ∧ p x = true :=
  List.mem_filter.1 (List.mem_of_getLast? h)

theorem lastWith_map (p : β → Bool) (f : α → β) (xs : List α) :
    lastWith p (xs.map f) = (lastWith (fun x => p (f x)) xs).map f := by
  unfold lastWith
  rw [List.filter_map, List.getLast?_map]
  rfl

theorem lastWith_congr {p q : α → Bool} {xs : List α} (h : ∀ x ∈ xs, p x = q x) :
    lastWith p xs = lastWith q xs := by
  unfold lastWith
  rw [List.filter_congr h]

theorem lastWith_eq_of_filter_eq {p : α → Bool} {xs ys : List α}
    (h : xs.filter p = ys.filter p) : lastWith p xs = lastWith p ys := by
  unfold lastWith
  rw [h]

/-- The last element with a property is the last one of its kind with it. -/
theorem lastWith_and_of_eq_some {p q : α → Bool} {xs : List α} {x : α}
    (h : lastWith p xs = some x) (hq : q x = true) :
    lastWith (fun a => p a && q a) xs = some x := by
  unfold lastWith at h ⊢
  obtain ⟨init, hinit⟩ := List.getLast?_eq_some_iff.1 h
  have hfilter : xs.filter (fun a => p a && q a) = (xs.filter p).filter q := by
    rw [List.filter_filter]
    apply List.filter_congr
    intro a _
    exact Bool.and_comm _ _
  rw [hfilter, hinit, List.filter_append, List.filter_cons_of_pos hq, List.filter_nil,
    List.getLast?_concat]

/-! ## Distinct elements -/

section Distinct

variable [DecidableEq α]

/-- The elements of a list, each only where it comes first. -/
def distinct (xs : List α) : List α := xs.eraseDups

@[simp] theorem distinct_nil : distinct ([] : List α) = [] := rfl

@[simp] theorem mem_distinct {x : α} {xs : List α} : x ∈ distinct xs ↔ x ∈ xs :=
  List.mem_eraseDups

theorem distinct_concat (xs : List α) (x : α) :
    distinct (xs ++ [x]) = if x ∈ xs then distinct xs else distinct xs ++ [x] := by
  unfold distinct
  rw [List.eraseDups_append]
  by_cases h : x ∈ xs <;> simp [List.removeAll, h, List.eraseDups_cons]

theorem nodup_distinct (xs : List α) : (distinct xs).Nodup := by
  induction xs using List.reverseRecOn with
  | nil => simp
  | append_singleton xs x ih =>
    rw [distinct_concat]
    split
    · exact ih
    · next h =>
      rw [List.nodup_append]
      refine ⟨ih, by simp, ?_⟩
      intro a ha b hb hab
      rw [List.mem_singleton] at hb
      exact h (hb ▸ hab ▸ mem_distinct.1 ha)

theorem distinct_of_nodup {xs : List α} (h : xs.Nodup) : distinct xs = xs := by
  induction xs using List.reverseRecOn with
  | nil => rfl
  | append_singleton xs x ih =>
    rw [List.nodup_append] at h
    obtain ⟨hxs, _, hne⟩ := h
    have hx : x ∉ xs := fun hx => hne x hx x (List.mem_singleton_self x) rfl
    rw [distinct_concat, if_neg hx, ih hxs]

theorem distinct_filter (p : α → Bool) (xs : List α) :
    distinct (xs.filter p) = (distinct xs).filter p := by
  induction xs using List.reverseRecOn with
  | nil => rfl
  | append_singleton xs x ih =>
    rw [List.filter_append, distinct_concat]
    by_cases hp : p x
    · have hx : [x].filter p = [x] := by simp [hp]
      rw [hx, distinct_concat, ih]
      by_cases hm : x ∈ xs <;> simp [hm, hp]
    · have hx : [x].filter p = [] := by simp [hp]
      rw [hx, List.append_nil, ih]
      by_cases hm : x ∈ xs <;> simp [hm, hp]

theorem distinct_map {β : Type} [DecidableEq β] {f : α → β} (hf : Function.Injective f)
    (xs : List α) : distinct (xs.map f) = (distinct xs).map f := by
  induction xs using List.reverseRecOn with
  | nil => rfl
  | append_singleton xs x ih =>
    have hmem : f x ∈ xs.map f ↔ x ∈ xs := List.mem_map_of_injective hf
    rw [List.map_append, List.map_singleton, distinct_concat, distinct_concat, ih]
    by_cases hm : x ∈ xs
    · rw [if_pos (hmem.2 hm), if_pos hm]
    · rw [if_neg (fun h => hm (hmem.1 h)), if_neg hm, List.map_append, List.map_singleton]

/-- Behind `xs`, only what is not in `xs` counts. -/
theorem distinct_append (xs ys : List α) :
    distinct (xs ++ ys) = distinct xs ++ distinct (ys.filter (· ∉ xs)) := by
  have hremove : ys.removeAll xs = ys.filter (· ∉ xs) := by simp [List.removeAll]
  unfold distinct
  rw [List.eraseDups_append, hremove]

/-- Whether copies inside a part are dropped before or after the parts are
    put together makes no difference. -/
theorem distinct_append_distinct (xs ys zs : List α) :
    distinct (xs ++ distinct ys ++ zs) = distinct (xs ++ ys ++ zs) := by
  have hfront : distinct (xs ++ distinct ys) = distinct (xs ++ ys) := by
    rw [distinct_append, distinct_append, distinct_filter, distinct_filter,
      distinct_of_nodup (nodup_distinct ys)]
  have hback : zs.filter (· ∉ xs ++ distinct ys) = zs.filter (· ∉ xs ++ ys) := by
    simp
  rw [distinct_append, distinct_append (xs ++ ys), hfront, hback]

end Distinct

/-! ## The last pair of each key -/

section LastPerKey

variable [DecidableEq κ]

/-- The pairs that stand last among those with their key, in the order in
    which the keys come first. -/
def lastPerKey (pairs : List (κ × ν)) : List (κ × ν) :=
  (distinct (pairs.map Prod.fst)).filterMap fun k => lastWith (fun p => p.1 = k) pairs

/-- A key that occurs has a last pair. -/
theorem exists_lastWith_key {pairs : List (κ × ν)} {k : κ} (h : k ∈ pairs.map Prod.fst) :
    ∃ v, lastWith (fun p => p.1 = k) pairs = some (k, v) := by
  obtain ⟨q, hq, hk⟩ := List.mem_map.1 h
  cases hl : lastWith (fun p => decide (p.1 = k)) pairs with
  | none =>
    have := lastWith_eq_none_iff.1 hl q hq
    simp [hk] at this
  | some p =>
    have hp := (mem_of_lastWith hl).2
    simp only [decide_eq_true_eq] at hp
    exact ⟨p.2, by rw [← hp]⟩

/-- The same pairs are left behind by lists with the same keys in the same
    order and the same last pair for each of them. -/
theorem lastPerKey_congr {ps qs : List (κ × ν)}
    (hkeys : distinct (ps.map Prod.fst) = distinct (qs.map Prod.fst))
    (hlast : ∀ k, lastWith (fun p => p.1 = k) ps = lastWith (fun p => p.1 = k) qs) :
    lastPerKey ps = lastPerKey qs := by
  unfold lastPerKey
  rw [hkeys]
  congr 1
  funext k
  exact hlast k

theorem map_fst_lastPerKey (pairs : List (κ × ν)) :
    (lastPerKey pairs).map Prod.fst = distinct (pairs.map Prod.fst) := by
  have hsome : ∀ k ∈ distinct (pairs.map Prod.fst),
      (lastWith (fun p => decide (p.1 = k)) pairs).map Prod.fst = some k := by
    intro k hk
    obtain ⟨v, hv⟩ := exists_lastWith_key (mem_distinct.1 hk)
    rw [hv, Option.map_some]
  unfold lastPerKey
  rw [List.map_filterMap, List.filterMap_congr hsome, List.filterMap_some]

theorem mem_lastPerKey {pairs : List (κ × ν)} {k : κ} {v : ν} :
    (k, v) ∈ lastPerKey pairs ↔ lastWith (fun p => p.1 = k) pairs = some (k, v) := by
  unfold lastPerKey
  rw [List.mem_filterMap]
  constructor
  · rintro ⟨k', _, hk'⟩
    have h := (mem_of_lastWith hk').2
    simp only [decide_eq_true_eq] at h
    subst h
    exact hk'
  · intro h
    refine ⟨k, ?_, h⟩
    rw [mem_distinct]
    exact List.mem_map_of_mem (mem_of_lastWith h).1

theorem nodup_map_fst_lastPerKey (pairs : List (κ × ν)) :
    ((lastPerKey pairs).map Prod.fst).Nodup := by
  rw [map_fst_lastPerKey]
  exact nodup_distinct _

/-- Where the keys are distinct, a pair is the last one with its key. -/
theorem lastWith_key_of_nodup {pairs : List (κ × ν)} {k : κ} {v : ν}
    (hnd : (pairs.map Prod.fst).Nodup) (h : (k, v) ∈ pairs) :
    lastWith (fun p => p.1 = k) pairs = some (k, v) := by
  obtain ⟨w, hw⟩ := exists_lastWith_key (List.mem_map_of_mem (f := Prod.fst) h)
  have hmem := (mem_of_lastWith hw).1
  have heq := List.inj_on_of_nodup_map hnd h hmem rfl
  rw [hw, heq]

theorem lastWith_lastPerKey (pairs : List (κ × ν)) (k : κ) :
    lastWith (fun p => p.1 = k) (lastPerKey pairs) = lastWith (fun p => p.1 = k) pairs := by
  cases h : lastWith (fun p => decide (p.1 = k)) pairs with
  | none =>
    rw [lastWith_eq_none_iff] at h ⊢
    intro p hp
    exact h p (mem_of_lastWith (mem_lastPerKey.1 hp)).1
  | some p =>
    have hk := (mem_of_lastWith h).2
    simp only [decide_eq_true_eq] at hk
    subst hk
    exact lastWith_key_of_nodup (nodup_map_fst_lastPerKey pairs) (mem_lastPerKey.2 h)

/-- A part may be replaced by what it leaves behind. -/
theorem lastPerKey_append_lastPerKey (ps qs rs : List (κ × ν)) :
    lastPerKey (ps ++ lastPerKey qs ++ rs) = lastPerKey (ps ++ qs ++ rs) := by
  apply lastPerKey_congr
  · simp only [List.map_append, map_fst_lastPerKey]
    exact distinct_append_distinct ..
  · intro k
    simp only [lastWith_append, lastWith_lastPerKey]

/-- One more pair takes the place of the one with its key, or the last place. -/
theorem lastPerKey_concat (pairs : List (κ × ν)) (k : κ) (v : ν) :
    lastPerKey (pairs ++ [(k, v)]) =
      if k ∈ pairs.map Prod.fst then OrderedMap.replace k v (lastPerKey pairs)
      else lastPerKey pairs ++ [(k, v)] := by
  have hlast : ∀ k', lastWith (fun p => decide (p.1 = k')) (pairs ++ [(k, v)]) =
      if k = k' then some (k, v) else lastWith (fun p => decide (p.1 = k')) pairs := by
    intro k'
    rw [lastWith_append, lastWith_singleton]
    by_cases h : k = k' <;> simp [h]
  unfold lastPerKey
  rw [List.map_append, List.map_singleton, distinct_concat]
  by_cases hk : k ∈ pairs.map Prod.fst
  · rw [if_pos hk, if_pos hk]
    unfold OrderedMap.replace
    rw [List.map_filterMap]
    apply List.filterMap_congr
    intro k' hk'
    rw [hlast]
    by_cases h : k = k'
    · obtain ⟨w, hw⟩ := exists_lastWith_key hk
      subst h
      simp [hw]
    · obtain ⟨w, hw⟩ := exists_lastWith_key (mem_distinct.1 hk')
      simp [hw, h, Ne.symm h]
  · rw [if_neg hk, if_neg hk, List.filterMap_append]
    congr 1
    · apply List.filterMap_congr
      intro k' hk'
      have h : k ≠ k' := fun h => hk (h ▸ mem_distinct.1 hk')
      rw [hlast, if_neg h]
    · simp [hlast]

end LastPerKey

/-! ## Sets -/

namespace OrderedSet

variable [DecidableEq α]

theorem toList_insert (s : OrderedSet α) (x : α) :
    (s.insert x).toList = if x ∈ s.toList then s.toList else s.toList ++ [x] := by
  unfold insert
  split <;> rfl

theorem mem_insert {s : OrderedSet α} {x y : α} :
    y ∈ (s.insert x).toList ↔ y ∈ s.toList ∨ y = x := by
  rw [toList_insert]
  split
  · next hx => exact ⟨.inl, fun h => h.elim id fun hy => hy ▸ hx⟩
  · simp

theorem mem_insertMany {s : OrderedSet α} {xs : List α} {y : α} :
    y ∈ (s.insertMany xs).toList ↔ y ∈ s.toList ∨ y ∈ xs := by
  unfold insertMany
  induction xs generalizing s with
  | nil => simp
  | cons x xs ih => rw [List.foldl_cons, ih, mem_insert, List.mem_cons, or_assoc]

theorem ofList_concat (xs : List α) (x : α) : ofList (xs ++ [x]) = (ofList xs).insert x := by
  simp [ofList, insertMany]

/-- A set made from a list holds its elements where they come first. -/
theorem toList_ofList (xs : List α) : (ofList xs).toList = distinct xs := by
  induction xs using List.reverseRecOn with
  | nil => rfl
  | append_singleton xs x ih =>
    rw [ofList_concat, toList_insert, distinct_concat, ih]
    simp

end OrderedSet

/-! ## Maps -/

namespace OrderedMap

variable [DecidableEq κ]

theorem toList_insert (m : OrderedMap κ ν) (k : κ) (v : ν) :
    (m.insert k v).toList = if k ∈ m.keys then replace k v m.toList else m.toList ++ [(k, v)] := by
  unfold insert
  split <;> rfl

/-- A pair of a map was there before, unless it is the one inserted. -/
theorem of_mem_insert {m : OrderedMap κ ν} {k : κ} {v : ν} {p : κ × ν}
    (h : p ∈ (m.insert k v).toList) : p ∈ m.toList ∨ p = (k, v) := by
  rw [toList_insert] at h
  split at h
  · obtain ⟨q, hq, rfl⟩ := List.mem_map.1 h
    by_cases hk : q.1 = k
    · exact .inr (by simp [hk])
    · exact .inl (by simpa [hk] using hq)
  · simpa using h

theorem of_mem_insertMany {m : OrderedMap κ ν} {pairs : List (κ × ν)} {p : κ × ν}
    (h : p ∈ (m.insertMany pairs).toList) : p ∈ m.toList ∨ p ∈ pairs := by
  unfold insertMany at h
  induction pairs generalizing m with
  | nil => exact .inl h
  | cons q pairs ih =>
    rcases ih h with h | h
    · rcases of_mem_insert h with h | rfl
      · exact .inl h
      · exact .inr (List.mem_cons_self ..)
    · exact .inr (List.mem_cons_of_mem _ h)

theorem ofList_concat (pairs : List (κ × ν)) (k : κ) (v : ν) :
    ofList (pairs ++ [(k, v)]) = (ofList pairs).insert k v := by
  simp [ofList, insertMany]

/-- A map made from a list holds the last pair of each key, where the key
    comes first. -/
theorem toList_ofList (pairs : List (κ × ν)) : (ofList pairs).toList = lastPerKey pairs := by
  induction pairs using List.reverseRecOn with
  | nil => rfl
  | append_singleton pairs p ih =>
    rw [ofList_concat, toList_insert, lastPerKey_concat, keys, ih, map_fst_lastPerKey]
    simp only [mem_distinct]

end OrderedMap

end StyleSlots
