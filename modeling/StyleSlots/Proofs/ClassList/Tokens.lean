import StyleSlots.ClassList.Merge
import StyleSlots.Proofs.Ordered.Insertions
import StyleSlots.Proofs.Text.Words

/-! # Merging is about tokens

    A merge walks over nested lists of texts and fragments, but its outcome
    depends only on the tokens that it meets on the way.

    - **Tokens**: the words of a text, and the plain classes and then the
      generated names of a fragment.
    - **Fitting fragments**: plain classes are not atomic, and a generated
      name stands under its own group key. The fragment of a list of words
      fits, and to take in a fitting one is to take in its tokens.
    - **Pieces**: the fragment of pieces that fit is the fragment of their
      tokens. -/

namespace StyleSlots

/-! ## Tokens of candidates -/

namespace Candidate

mutual

/-- The tokens of a candidate, from left to right. -/
def tokens : Candidate → List Text
  | text classes => classes.words
  | fragment f => f.tokens
  | list items _ => tokensAll items
  | datum _ => []

/-- The tokens of a list of candidates, from left to right. -/
def tokensAll : List Candidate → List Text
  | [] => []
  | item :: more => tokens item ++ tokensAll more

end

/-- The tokens of the argument of a merge, where a record stands for its
    keys. -/
def argumentTokens : Candidate → List Text
  | datum (.record keys _) => keys.flatMap Text.words
  | candidate => candidate.tokens

theorem tokensAll_append (xs ys : List Candidate) :
    tokensAll (xs ++ ys) = tokensAll xs ++ tokensAll ys := by
  induction xs with
  | nil => rfl
  | cons x xs ih => simp [tokensAll, ih]

theorem tokensAll_singleton (c : Candidate) : tokensAll [c] = c.tokens := by
  simp [tokensAll]

theorem tokensAll_map_text (ts : List Text) :
    tokensAll (ts.map text) = ts.flatMap Text.words := by
  induction ts with
  | nil => rfl
  | cons t ts ih => simp [tokensAll, tokens, ih]

/-- The list that an argument stands for has the tokens of the argument. -/
theorem tokensAll_arguments {argument : Candidate} {candidates : List Candidate}
    (h : argument.arguments? = some candidates) :
    tokensAll candidates = argument.argumentTokens := by
  unfold arguments? at h
  split at h
  · cases h; simp [argumentTokens, tokensAll]
  · cases h; simp [argumentTokens, tokensAll]
  · cases h; simp [argumentTokens, tokens]
  · cases h; simp [argumentTokens, tokens, tokensAll]
  · cases h; rw [tokensAll_map_text, argumentTokens]
  · next value _ hrecord =>
    split at h
    · cases h
    · cases h
      -- a false datum that is no record has no tokens either
      cases value <;> first | rfl | exact absurd rfl (hrecord _ _)

end Candidate

/-! ## Fragments of tokens -/

theorem ClassName.groupKey?_eq_none_iff {scheme : Scheme} {name : Text} :
    groupKey? scheme name = none ↔ isAtomic scheme name = false := by
  unfold groupKey?
  split <;> simp [*]

/-- A token with its group key. -/
def classified (scheme : Scheme) (token : Text) : Classified :=
  (ClassName.groupKey? scheme token, token)

/-- The plain class that a classified token is. -/
def Classified.plain? : Classified → Option Text
  | (none, token) => some token
  | (some _, _) => none

/-- The group key and name that a classified token is. -/
def Classified.grouped? : Classified → Option (Text × Text)
  | (none, _) => none
  | (some key, token) => some (key, token)

namespace Fragment

/-- The fragment of a list of tokens. -/
def ofTokens (scheme : Scheme) (ts : List Text) : Fragment :=
  empty.insertMany (ts.map (classified scheme))

/-- A fragment as merging under `scheme` leaves it. -/
structure Fits (scheme : Scheme) (f : Fragment) : Prop where
  plain   : ∀ token ∈ f.classes.toList, ClassName.groupKey? scheme token = none
  grouped : ∀ p ∈ f.groups.toList, ClassName.groupKey? scheme p.2 = some p.1
  words   : ∀ token ∈ f.tokens, Text.IsWord token

theorem insertMany_classes (f : Fragment) (ts : List Classified) :
    (f.insertMany ts).classes = f.classes.insertMany (ts.filterMap Classified.plain?) := by
  unfold insertMany OrderedSet.insertMany
  induction ts generalizing f with
  | nil => rfl
  | cons t ts ih =>
    obtain ⟨key, token⟩ := t
    cases key <;> simp [ih, insert, List.filterMap_cons, Classified.plain?]

theorem insertMany_groups (f : Fragment) (ts : List Classified) :
    (f.insertMany ts).groups = f.groups.insertMany (ts.filterMap Classified.grouped?) := by
  unfold insertMany OrderedMap.insertMany
  induction ts generalizing f with
  | nil => rfl
  | cons t ts ih =>
    obtain ⟨key, token⟩ := t
    cases key <;> simp [ih, insert, List.filterMap_cons, Classified.grouped?]

theorem insertMany_append (f : Fragment) (ts us : List Classified) :
    f.insertMany (ts ++ us) = (f.insertMany ts).insertMany us := by
  unfold insertMany
  rw [List.foldl_append]

theorem plain?_classified (scheme : Scheme) (ts : List Text) :
    (ts.map (classified scheme)).filterMap Classified.plain? =
      ts.filter fun t => ClassName.groupKey? scheme t = none := by
  induction ts with
  | nil => rfl
  | cons t ts ih =>
    cases h : ClassName.groupKey? scheme t <;>
      simp [List.filterMap_cons, classified, Classified.plain?, h, ← ih]

/-- The atomic tokens of a list with their group keys. -/
def atomicPairs (scheme : Scheme) (ts : List Text) : List (Text × Text) :=
  ts.filterMap fun t => (ClassName.groupKey? scheme t).map (·, t)

theorem grouped?_classified (scheme : Scheme) (ts : List Text) :
    (ts.map (classified scheme)).filterMap Classified.grouped? = atomicPairs scheme ts := by
  unfold atomicPairs
  induction ts with
  | nil => rfl
  | cons t ts ih =>
    cases h : ClassName.groupKey? scheme t <;>
      simp [List.filterMap_cons, classified, Classified.grouped?, h, ← ih]

/-! ## What a fragment of tokens holds -/

theorem classes_ofTokens (scheme : Scheme) (ts : List Text) :
    (ofTokens scheme ts).classes.toList =
      distinct (ts.filter fun t => ClassName.groupKey? scheme t = none) := by
  unfold ofTokens
  rw [insertMany_classes, plain?_classified]
  exact OrderedSet.toList_ofList (ts.filter fun t => ClassName.groupKey? scheme t = none)

theorem groups_ofTokens (scheme : Scheme) (ts : List Text) :
    (ofTokens scheme ts).groups.toList = lastPerKey (atomicPairs scheme ts) := by
  unfold ofTokens
  rw [insertMany_groups, grouped?_classified]
  exact OrderedMap.toList_ofList (atomicPairs scheme ts)

theorem mem_atomicPairs {scheme : Scheme} {ts : List Text} {key token : Text} :
    (key, token) ∈ atomicPairs scheme ts ↔
      token ∈ ts ∧ ClassName.groupKey? scheme token = some key := by
  unfold atomicPairs
  rw [List.mem_filterMap]
  constructor
  · rintro ⟨t, ht, hpair⟩
    obtain ⟨k, hk, heq⟩ := Option.map_eq_some_iff.1 hpair
    cases heq
    exact ⟨ht, hk⟩
  · rintro ⟨ht, hk⟩
    exact ⟨token, ht, by rw [hk, Option.map_some]⟩

/-- What stands last among the atomic tokens of a group stands last in the
    list among the tokens with its key. -/
theorem lastWith_atomicPairs (scheme : Scheme) (ts : List Text) (key : Text) :
    lastWith (fun p : Text × Text => p.1 = key) (atomicPairs scheme ts) =
      (lastWith (fun t => ClassName.groupKey? scheme t = some key) ts).map (key, ·) := by
  induction ts using List.reverseRecOn with
  | nil => rfl
  | append_singleton ts t ih =>
    have hsplit : atomicPairs scheme (ts ++ [t]) =
        atomicPairs scheme ts ++ atomicPairs scheme [t] := List.filterMap_append
    rw [hsplit, lastWith_append, lastWith_append, ih, lastWith_singleton]
    cases h : ClassName.groupKey? scheme t with
    | none => simp [atomicPairs, h]
    | some k =>
      have hone : atomicPairs scheme [t] = [(k, t)] := by simp [atomicPairs, h]
      rw [hone, lastWith_singleton]
      by_cases hk : k = key <;> simp [hk]

/-- Two fragments are the same if their tokens say so. -/
theorem ext_toList {f g : Fragment} (hc : f.classes.toList = g.classes.toList)
    (hg : f.groups.toList = g.groups.toList) : f = g := by
  obtain ⟨⟨_, _⟩, ⟨_, _⟩⟩ := f
  obtain ⟨⟨_, _⟩, ⟨_, _⟩⟩ := g
  cases hc
  cases hg
  rfl

/-- Every token that a fragment keeps is one of those it was made from. -/
theorem mem_of_mem_tokens_ofTokens {scheme : Scheme} {ts : List Text} {token : Text}
    (h : token ∈ (ofTokens scheme ts).tokens) : token ∈ ts := by
  unfold tokens OrderedMap.values at h
  rw [classes_ofTokens, groups_ofTokens, List.mem_append] at h
  rcases h with h | h
  · exact (List.mem_filter.1 (mem_distinct.1 h)).1
  · obtain ⟨⟨key, t⟩, hp, rfl⟩ := List.mem_map.1 h
    exact (mem_atomicPairs.1 (mem_of_lastWith (mem_lastPerKey.1 hp)).1).1

theorem fits_ofTokens {scheme : Scheme} {ts : List Text} (h : ∀ t ∈ ts, Text.IsWord t) :
    (ofTokens scheme ts).Fits scheme where
  plain := by
    intro token ht
    rw [classes_ofTokens, mem_distinct, List.mem_filter] at ht
    simpa using ht.2
  grouped := by
    intro p hp
    rw [groups_ofTokens] at hp
    exact (mem_atomicPairs.1 (mem_of_lastWith (mem_lastPerKey.1 hp)).1).2
  words := fun token ht => h token (mem_of_mem_tokens_ofTokens ht)

theorem mem_classes_ofTokens {scheme : Scheme} {ts : List Text} {token : Text} :
    token ∈ (ofTokens scheme ts).classes.toList ↔
      token ∈ ts ∧ ClassName.groupKey? scheme token = none := by
  rw [classes_ofTokens, mem_distinct, List.mem_filter]
  simp

/-- A group of which some token was met has a name. -/
theorem exists_group_ofTokens {scheme : Scheme} {ts : List Text} {key token : Text}
    (ht : token ∈ ts) (hk : ClassName.groupKey? scheme token = some key) :
    ∃ name, (key, name) ∈ (ofTokens scheme ts).groups.toList := by
  have hpair := mem_atomicPairs.2 ⟨ht, hk⟩
  obtain ⟨name, hname⟩ := exists_lastWith_key (List.mem_map_of_mem (f := Prod.fst) hpair)
  refine ⟨name, ?_⟩
  rw [groups_ofTokens, mem_lastPerKey]
  exact hname

theorem mem_values {f : Fragment} {name : Text} :
    name ∈ f.groups.values ↔ ∃ key, (key, name) ∈ f.groups.toList := by
  unfold OrderedMap.values
  simp

/-- A merge keeps a token if it is plain, or the last one of its group. -/
theorem mem_tokens_ofTokens {scheme : Scheme} {ts : List Text} {token : Text} :
    token ∈ (ofTokens scheme ts).tokens ↔
      token ∈ ts ∧ ClassName.groupKey? scheme token = none ∨
        ∃ key, lastWith (fun t => ClassName.groupKey? scheme t = some key) ts = some token := by
  have hgroups : ∀ key, (key, token) ∈ (ofTokens scheme ts).groups.toList ↔
      lastWith (fun t => ClassName.groupKey? scheme t = some key) ts = some token := by
    intro key
    rw [groups_ofTokens, mem_lastPerKey, lastWith_atomicPairs, Option.map_eq_some_iff]
    constructor
    · rintro ⟨t, ht, heq⟩
      cases heq
      exact ht
    · intro h
      exact ⟨token, h, rfl⟩
  unfold tokens
  rw [List.mem_append, mem_classes_ofTokens, mem_values]
  simp only [hgroups]

/-- Lists with the same tokens both keep a token or both do not, if the same
    token is the last one of its group in them. -/
theorem mem_tokens_ofTokens_congr {scheme : Scheme} {ts us : List Text} {token : Text}
    (hmem : token ∈ ts ↔ token ∈ us)
    (hlast : ∀ key, ClassName.groupKey? scheme token = some key →
      lastWith (fun t => ClassName.groupKey? scheme t = some key) ts =
        lastWith (fun t => ClassName.groupKey? scheme t = some key) us) :
    token ∈ (ofTokens scheme ts).tokens ↔ token ∈ (ofTokens scheme us).tokens := by
  rw [mem_tokens_ofTokens, mem_tokens_ofTokens, hmem]
  refine or_congr Iff.rfl (exists_congr fun key => ?_)
  by_cases hkey : ClassName.groupKey? scheme token = some key
  · rw [hlast key hkey]
  · -- a token is found only under its own key
    have hnone : ∀ vs : List Text,
        lastWith (fun t => ClassName.groupKey? scheme t = some key) vs ≠ some token :=
      fun vs h => hkey (of_decide_eq_true (mem_of_lastWith h).2)
    exact iff_of_false (hnone ts) (hnone us)

theorem size_eq_length (f : Fragment) : f.size = f.tokens.length := by
  simp [tokens, size, OrderedMap.values, OrderedMap.size, OrderedSet.size]

/-- Only the fragment of no token is empty. -/
theorem size_ofTokens {scheme : Scheme} {ts : List Text} :
    (ofTokens scheme ts).size = 0 ↔ ts = [] := by
  constructor
  · intro h
    rw [size_eq_length, List.length_eq_zero_iff] at h
    have hnone : ∀ token, token ∉ (ofTokens scheme ts).tokens := by simp [h]
    apply List.eq_nil_iff_forall_not_mem.2
    intro t ht
    cases hk : ClassName.groupKey? scheme t with
    | none => exact hnone t (List.mem_append_left _ (mem_classes_ofTokens.2 ⟨ht, hk⟩))
    | some key =>
      obtain ⟨name, hname⟩ := exists_group_ofTokens ht hk
      exact hnone name (List.mem_append_right _ (List.mem_map_of_mem hname))
  · rintro rfl
    rfl

/-- The fragment of a list of tokens, if it has any. -/
def ofTokens? (scheme : Scheme) (ts : List Text) : Option Fragment :=
  if ts = [] then none else some (ofTokens scheme ts)

theorem ofTokens?_eq_none_iff {scheme : Scheme} {ts : List Text} :
    ofTokens? scheme ts = none ↔ ts = [] := by
  unfold ofTokens?
  split <;> simp [*]

theorem eq_ofTokens_of_ofTokens? {scheme : Scheme} {ts : List Text} {f : Fragment}
    (h : ofTokens? scheme ts = some f) : ofTokens scheme ts = f := by
  unfold ofTokens? at h
  split at h
  · cases h
  · exact Option.some.inj h

namespace Fits

variable {scheme : Scheme} {g : Fragment}

/-- The plain ones among the tokens of a fitting fragment are its classes. -/
theorem filter_tokens (hg : g.Fits scheme) :
    (g.tokens.filter fun t => ClassName.groupKey? scheme t = none) = g.classes.toList := by
  unfold tokens OrderedMap.values
  rw [List.filter_append, List.filter_eq_self.2, List.filter_eq_nil_iff.2, List.append_nil]
  · intro t ht
    obtain ⟨p, hp, rfl⟩ := List.mem_map.1 ht
    simp [hg.grouped p hp]
  · intro t ht
    simp [hg.plain t ht]

/-- The atomic ones among the tokens of a fitting fragment are its groups. -/
theorem atomicPairs_tokens (hg : g.Fits scheme) :
    atomicPairs scheme g.tokens = g.groups.toList := by
  have hnone : ∀ t ∈ g.classes.toList, (ClassName.groupKey? scheme t).map (·, t) = none := by
    intro t ht
    rw [hg.plain t ht, Option.map_none]
  have hsome : ∀ p ∈ g.groups.toList,
      (ClassName.groupKey? scheme p.2).map (·, p.2) = some p := by
    intro p hp
    rw [hg.grouped p hp, Option.map_some]
  unfold atomicPairs tokens OrderedMap.values
  rw [List.filterMap_append, List.filterMap_eq_nil_iff.2 hnone, List.nil_append,
    List.filterMap_map]
  exact (List.filterMap_congr hsome).trans List.filterMap_some

/-- Taking in a fitting fragment is taking in its tokens. -/
theorem append_eq_insertMany (hg : g.Fits scheme) (f : Fragment) :
    f.append g = f.insertMany (g.tokens.map (classified scheme)) := by
  have hparts : ∀ k : Fragment, k = ⟨k.classes, k.groups⟩ := fun _ => rfl
  rw [hparts (f.insertMany _), insertMany_classes, insertMany_groups, plain?_classified,
    grouped?_classified, hg.filter_tokens, hg.atomicPairs_tokens]
  rfl

end Fits

end Fragment

/-! ## Pieces -/

namespace Piece

/-- The tokens of a piece. -/
def tokens : Piece → List Text
  | text classes => classes.words
  | fragment f => f.tokens

/-- A piece that is a text, or a fragment as merging leaves it. -/
def Fits (scheme : Scheme) : Piece → Prop
  | text _ => True
  | fragment f => f.Fits scheme

theorem take_resolve {scheme : Scheme} {p : Piece} (hp : p.Fits scheme) (f : Fragment) :
    f.take (p.resolve scheme) = f.insertMany (p.tokens.map (classified scheme)) := by
  cases p with
  | text classes => rfl
  | fragment g => exact Fragment.Fits.append_eq_insertMany hp f

/-- The fragment of pieces is the fragment of their tokens. -/
theorem ofPieces_resolve {scheme : Scheme} {ps : List Piece} (h : ∀ p ∈ ps, p.Fits scheme) :
    Fragment.ofPieces (ps.map (resolve scheme)) = Fragment.ofTokens scheme (ps.flatMap tokens) := by
  unfold Fragment.ofPieces Fragment.ofTokens
  generalize Fragment.empty = f
  induction ps generalizing f with
  | nil => rfl
  | cons p ps ih =>
    have hp := h p (List.mem_cons_self ..)
    have hps : ∀ q ∈ ps, q.Fits scheme := fun q hq => h q (List.mem_cons_of_mem _ hq)
    rw [List.map_cons, List.foldl_cons, take_resolve hp, ih hps, List.flatMap_cons,
      List.map_append, Fragment.insertMany_append]

end Piece

namespace Candidate

mutual

/-- The pieces of a candidate have its tokens: what is left out has none. -/
theorem flatMap_tokens_pieces : ∀ c : Candidate, c.pieces.flatMap Piece.tokens = c.tokens
  | text classes => by
    unfold pieces tokens
    split
    · next h => simp [List.isEmpty_iff.1 h]
    · simp [Piece.tokens]
  | fragment f => by
    unfold pieces tokens
    split
    · next h =>
      rw [Fragment.size_eq_length, List.length_eq_zero_iff] at h
      simp [h]
    · simp [Piece.tokens]
  | list items _ => by
    unfold pieces tokens
    exact flatMap_tokens_piecesAll items
  | datum _ => rfl

theorem flatMap_tokens_piecesAll : ∀ cs : List Candidate,
    (piecesAll cs).flatMap Piece.tokens = tokensAll cs
  | [] => rfl
  | c :: cs => by
    unfold piecesAll tokensAll
    rw [List.flatMap_append, flatMap_tokens_pieces c, flatMap_tokens_piecesAll cs]

end

theorem mem_piecesAll {p : Piece} {cs : List Candidate} :
    p ∈ piecesAll cs ↔ ∃ c ∈ cs, p ∈ c.pieces := by
  induction cs with
  | nil => simp [piecesAll]
  | cons c cs ih => simp [piecesAll, ih]

end Candidate

end StyleSlots
