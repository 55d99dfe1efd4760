import StyleSlots.Cascade.Shorthand
import Mathlib.Data.Nat.Digits.Lemmas

/-! # The rank of a property

    The number of properties that a shorthand lists is its rank, and the
    shorthand for every property is above all others.

    - **No cycle**: what a property supersedes is of lower rank, so shorthands
      form no cycle, however long a way one goes around.
    - **No detour**: what a property supersedes by way of others it supersedes
      itself.

    That a shorthand lists what the shorthands in its list do, and more, is a
    matter of the table. Its names are compared as numbers, which is fast
    enough to let every pair of entries be looked at. -/

namespace StyleSlots

namespace Cascade

/-! ## The table -/

/-- The bytes of a name as the digits of a number. -/
def code (name : String) : Nat :=
  name.toByteArray.data.toList.foldl (fun n byte => 256 * n + byte.toNat) 0

/-- The table, with numbers for names. -/
def codes : List (Nat × List Nat) :=
  table.map fun entry => (code entry.1, entry.2.map code)

/-- No entry lists the shorthand for every property. Of a shorthand that it
    does list, it lists all properties, and more. -/
theorem codes_nested : ∀ e ∈ codes, code "all" ∉ e.2 ∧
    ∀ f ∈ codes, f.1 ∈ e.2 → f.2.length < e.2.length ∧ ∀ x ∈ f.2, x ∈ e.2 := by
  decide +kernel

/-- The bytes of a name, the last one first: the digits of its number. -/
def codeDigits (name : String) : List Nat :=
  (name.toByteArray.data.toList.map UInt8.toNat).reverse

theorem code_eq_ofDigits (name : String) : code name = Nat.ofDigits 256 (codeDigits name) := by
  rw [code, codeDigits, Nat.ofDigits_eq_foldr, List.foldr_reverse, List.foldl_map]
  congr 1
  funext n byte
  simp [Nat.add_comm]

/-- No listed name starts with a zero byte. -/
theorem getLast?_codeDigits : ∀ e ∈ table, ∀ name ∈ e.2, (codeDigits name).getLast? ≠ some 0 := by
  decide +kernel

theorem digits_code {e : String × List String} (he : e ∈ table) {name : String}
    (h : name ∈ e.2) : Nat.digits 256 (code name) = codeDigits name := by
  rw [code_eq_ofDigits]
  apply Nat.digits_ofDigits 256 (by decide)
  · intro digit hdigit
    obtain ⟨byte, -, rfl⟩ := List.mem_map.1 (List.mem_reverse.1 hdigit)
    exact byte.toNat_lt
  · intro hne hzero
    apply getLast?_codeDigits e he name h
    rw [List.getLast?_eq_some_getLast hne, hzero]

/-- Listed names with the same number are the same. -/
theorem eq_of_code_eq {e f : String × List String} (he : e ∈ table) (hf : f ∈ table)
    {a b : String} (ha : a ∈ e.2) (hb : b ∈ f.2) (h : code a = code b) : a = b := by
  have hdigits : codeDigits a = codeDigits b := by rw [← digits_code he ha, ← digits_code hf hb, h]
  have hinjective : Function.Injective UInt8.toNat := fun _ _ => UInt8.toNat_inj.1
  have hbytes := List.map_injective_iff.2 hinjective (List.reverse_injective hdigits)
  exact String.toByteArray_inj.1 (ByteArray.ext (Array.toList_inj.1 hbytes))

section Listed

variable {e f : String × List String}

theorem universal_not_listed (he : e ∈ table) : "all" ∉ e.2 := by
  intro h
  exact (codes_nested _ (List.mem_map_of_mem he)).1 (List.mem_map_of_mem h)

theorem codes_nested_of_listed (he : e ∈ table) (hf : f ∈ table) (h : f.1 ∈ e.2) :
    (f.2.map code).length < (e.2.map code).length ∧ ∀ x ∈ f.2.map code, x ∈ e.2.map code :=
  (codes_nested _ (List.mem_map_of_mem he)).2 _ (List.mem_map_of_mem hf) (List.mem_map_of_mem h)

theorem length_lt_of_listed (he : e ∈ table) (hf : f ∈ table) (h : f.1 ∈ e.2) :
    f.2.length < e.2.length := by
  simpa using (codes_nested_of_listed he hf h).1

theorem listed_of_listed (he : e ∈ table) (hf : f ∈ table) (h : f.1 ∈ e.2) {name : String}
    (hname : name ∈ f.2) : name ∈ e.2 := by
  have hcode := (codes_nested_of_listed he hf h).2 _ (List.mem_map_of_mem hname)
  obtain ⟨other, hother, heq⟩ := List.mem_map.1 hcode
  rwa [← eq_of_code_eq he hf hother hname heq]

end Listed

/-- The entry of the table that a text stands in. -/
theorem exists_table_of_mem_entries {entry : Text × List Text} (h : entry ∈ entries) :
    ∃ e ∈ table, entry = (e.1.toList, e.2.map String.toList) := by
  obtain ⟨e, he, heq⟩ := List.mem_map.1 h
  exact ⟨e, he, heq.symm⟩

/-! ## Ranks -/

/-- The length of the longest list among entries of the table. -/
def longest (es : List (Text × List Text)) : Nat :=
  es.foldr (fun entry n => max entry.2.length n) 0

/-- How many properties a property supersedes. -/
def rank (prop : Text) : Nat :=
  match superseded? prop with
  | some .everything => longest entries + 1
  | some (.listed props) => props.length
  | none => 0

theorem length_le_longest {es : List (Text × List Text)} {entry : Text × List Text}
    (h : entry ∈ es) : entry.2.length ≤ longest es := by
  induction es with
  | nil => cases h
  | cons first more ih =>
    rw [longest, List.foldr_cons]
    rcases List.mem_cons.1 h with rfl | h
    · exact Nat.le_max_left _ _
    · exact Nat.le_trans (ih h) (Nat.le_max_right _ _)

/-- A list that a property supersedes stands in the table. -/
theorem mem_entries_of_superseded? {prop : Text} {props : List Text}
    (h : superseded? prop = some (.listed props)) : (prop, props) ∈ entries := by
  unfold superseded? at h
  split at h
  · cases h
  · obtain ⟨entry, hfind, hlisted⟩ := Option.map_eq_some_iff.1 h
    have hname : entry.1 = prop := by simpa using List.find?_some hfind
    cases hlisted
    rw [← hname]
    exact List.mem_of_find?_eq_some hfind

theorem superseded?_eq_everything_iff {prop : Text} :
    superseded? prop = some .everything ↔ prop = universal := by
  unfold superseded?
  constructor
  · intro h
    split at h
    · assumption
    · obtain ⟨_, _, hlisted⟩ := Option.map_eq_some_iff.1 h
      cases hlisted
  · intro h
    rw [if_pos h]

/-- Nothing but the shorthand for every property is above the lists. -/
theorem rank_le_longest {prop : Text} (h : prop ≠ universal) : rank prop ≤ longest entries := by
  unfold rank
  split
  · next heverything => exact absurd (superseded?_eq_everything_iff.1 heverything) h
  · next props hlisted => exact length_le_longest (mem_entries_of_superseded? hlisted)
  · exact Nat.zero_le _

/-- What is listed is of lower rank than the list is long. -/
theorem rank_lt_length {entry : Text × List Text} (h : entry ∈ entries) {prop : Text}
    (hprop : prop ∈ entry.2) : rank prop < entry.2.length := by
  obtain ⟨e, he, rfl⟩ := exists_table_of_mem_entries h
  obtain ⟨name, hname, rfl⟩ := List.mem_map.1 hprop
  unfold rank
  split
  · next heverything =>
    -- this shorthand is above all lists, so it must not be listed
    have hall := superseded?_eq_everything_iff.1 heverything
    rw [String.toList_injective hall] at hname
    exact absurd hname (universal_not_listed he)
  · next props hlisted =>
    obtain ⟨f, hf, heq⟩ := exists_table_of_mem_entries (mem_entries_of_superseded? hlisted)
    obtain ⟨hnames, rfl⟩ := Prod.mk.inj heq
    rw [String.toList_injective hnames] at hname
    simpa using length_lt_of_listed he hf hname
  · exact List.length_pos_of_mem hprop

/-- A shorthand is of higher rank than what it supersedes. -/
theorem rank_lt_of_supersedes {a b : Text} (h : supersedes a b = true) : rank b < rank a := by
  unfold supersedes at h
  split at h
  · next heverything =>
    have ha := superseded?_eq_everything_iff.1 heverything
    have hb : b ≠ universal := by
      rintro rfl
      simp [ha] at h
    have hrank : rank a = longest entries + 1 := by
      rw [rank, heverything]
    have hle := rank_le_longest hb
    omega
  · next props hlisted =>
    have hrank : rank a = props.length := by
      rw [rank, hlisted]
    rw [hrank]
    exact rank_lt_length (mem_entries_of_superseded? hlisted) (by simpa using h)
  · cases h

theorem supersedes_self (prop : Text) : supersedes prop prop = false := by
  by_contra h
  rw [Bool.not_eq_false] at h
  exact absurd (rank_lt_of_supersedes h) (Nat.lt_irrefl _)

/-! ## Transitivity -/

/-- Only a property that is a shorthand supersedes any. -/
theorem isShorthand_of_supersedes {a b : Text} (h : supersedes a b = true) :
    isShorthand a = true := by
  unfold supersedes at h
  unfold isShorthand
  split at h
  · next heverything => rw [heverything]; rfl
  · next props hlisted => rw [hlisted]; rfl
  · cases h

theorem supersedes_universal_iff {prop : Text} :
    supersedes universal prop = true ↔ universal ≠ prop := by
  rw [supersedes, superseded?_eq_everything_iff.2 rfl]
  exact decide_eq_true_iff

/-- The shorthand for every property is not superseded. -/
theorem ne_universal_of_supersedes {a b : Text} (h : supersedes a b = true) :
    b ≠ universal := by
  rintro rfl
  have hlt := rank_lt_of_supersedes h
  by_cases ha : a = universal
  · rw [ha] at hlt
    exact absurd hlt (Nat.lt_irrefl _)
  · have hle := rank_le_longest ha
    have hrank : rank universal = longest entries + 1 := by
      rw [rank, superseded?_eq_everything_iff.2 rfl]
    omega

theorem mem_of_supersedes {a b : Text} (ha : a ≠ universal) (h : supersedes a b = true) :
    ∃ props, superseded? a = some (.listed props) ∧ (a, props) ∈ entries ∧ b ∈ props := by
  unfold supersedes at h
  split at h
  · next heverything => exact absurd (superseded?_eq_everything_iff.1 heverything) ha
  · next props hlisted =>
    exact ⟨props, hlisted, mem_entries_of_superseded? hlisted, by simpa using h⟩
  · cases h

/-- What is superseded by way of another property is superseded. -/
theorem supersedes_trans {a b c : Text} (hab : supersedes a b = true)
    (hbc : supersedes b c = true) : supersedes a c = true := by
  by_cases ha : a = universal
  · rw [ha, supersedes_universal_iff]
    exact (ne_universal_of_supersedes hbc).symm
  · obtain ⟨props, hlisted, hentry, hb⟩ := mem_of_supersedes ha hab
    obtain ⟨inner, -, hinner, hc⟩ := mem_of_supersedes (ne_universal_of_supersedes hab) hbc
    obtain ⟨e, he, heq⟩ := exists_table_of_mem_entries hentry
    obtain ⟨f, hf, hfeq⟩ := exists_table_of_mem_entries hinner
    obtain ⟨rfl, rfl⟩ := Prod.mk.inj heq
    obtain ⟨rfl, rfl⟩ := Prod.mk.inj hfeq
    -- both entries are of the table, and the one lists the other
    obtain ⟨other, hother, hname⟩ := List.mem_map.1 hb
    rw [String.toList_injective hname] at hother
    obtain ⟨name, hin, rfl⟩ := List.mem_map.1 hc
    have hmem : name ∈ e.2 := listed_of_listed he hf hother hin
    rw [supersedes, hlisted]
    exact List.elem_eq_true_of_mem (List.mem_map_of_mem hmem)

end Cascade

end StyleSlots
