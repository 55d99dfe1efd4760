import StyleSlots.Proofs.ClassName.Composite
import StyleSlots.Proofs.CompiledNames
import StyleSlots.Proofs.Selector.Scoping
import StyleSlots.Proofs.Trace.Origins

/-! # What class names tell apart

    A class name hashes two composites, one for the slot and one for what is
    put into it. The composites are what a name can tell apart at best.

    - **Blanks**: how many there are in a row is lost, in quoted strings too.
    - **Labels**: those of nested blocks are put together before they are
      spelt, so a composite does not tell where one ends.
    - **Main statements**: `declarationText_eq_iff` for what is put into a
      slot, and `Placement.text_slot_eq_iff` for the slot. -/

namespace StyleSlots

open Text ClassName

/-! ## Texts that are not blank -/

namespace Text

theorem squeeze_eq_nil_iff {t : Text} : squeeze t = [] ↔ t = [] := by
  constructor
  · intro h
    induction t with
    | nil => rfl
    | cons c t ih =>
      rw [squeeze_cons, List.append_eq_nil_iff] at h
      obtain ⟨hfirst, hrest⟩ := h
      rw [ih hrest] at hfirst
      split at hfirst
      · cases hfirst
      · cases hfirst
  · rintro rfl
    rfl

theorem collapse_eq_nil_iff {t : Text} : collapse t = [] ↔ ∀ c ∈ t, isBlank c = true := by
  rw [collapse_eq_squeeze_trim, squeeze_eq_nil_iff, trim_eq_nil_iff]

theorem collapse_ne_nil_of_mem {t : Text} {c : Char} (hmem : c ∈ t) (hc : isBlank c = false) :
    collapse t ≠ [] := by
  intro h
  rw [collapse_eq_nil_iff.1 h c hmem] at hc
  cases hc

theorem collapse_ne_nil_of_isTrimmed {t : Text} (h : IsTrimmed t) (hne : t ≠ []) :
    collapse t ≠ [] := by
  rw [collapse_eq_squeeze_trim, h.trim_eq, Ne, squeeze_eq_nil_iff]
  exact hne

end Text

/-! ## Components -/

namespace ClassName

variable {t : Text} {more : List Text}

theorem components_nil : components [] = [] := rfl

theorem components_cons_of_blank (h : t.collapse = []) :
    components (t :: more) = components more := by
  rw [collapse_eq_squeeze_trim] at h
  simp [components, h]

theorem components_cons_of_ne (h : t.collapse ≠ []) :
    components (t :: more) = t.collapse :: components more := by
  rw [collapse_eq_squeeze_trim] at h ⊢
  simp [components, h]

end ClassName

/-! ## Declarations -/

/-- Whether two declarations mean the same: they are equally important, and
    their values differ in blanks only. -/
structure Declaration.Alike (a b : Declaration) : Prop where
  important : a.important = b.important
  value     : a.value.collapse = b.value.collapse

/-- Whether a declaration is more than a mark: an important one must have a
    value. -/
def Declaration.HasValue (d : Declaration) : Prop := d.important = true → d.value ≠ []

namespace ClassName

/-- What a declaration adds to a composite for being important. -/
theorem components_important : components ["important".toList] = ["important".toList] := rfl

theorem components_value (value : Text) :
    components [value, []] = if value.collapse = [] then [] else [value.collapse] := by
  have hnil : components [[]] = [] := rfl
  split
  · next h => rw [components_cons_of_blank h, hnil]
  · next h => rw [components_cons_of_ne h, hnil]

theorem components_value_important {value : Text} (h : value.collapse ≠ []) :
    components [value, "important".toList] = [value.collapse, "important".toList] := by
  rw [components_cons_of_ne h, components_important]

/-- Composites tell declarations apart that do not mean the same. -/
theorem declarationText_eq_iff {a b : Declaration}
    (ha : a.important = true → a.value.collapse ≠ [])
    (hb : b.important = true → b.value.collapse ≠ []) :
    declarationText a.value a.important = declarationText b.value b.important ↔ a.Alike b := by
  have halike : a.Alike b ↔ a.important = b.important ∧ a.value.collapse = b.value.collapse :=
    ⟨fun h => ⟨h.important, h.value⟩, fun h => ⟨h.1, h.2⟩⟩
  rw [halike, declarationText, declarationText, composite_eq_iff]
  -- an important declaration has two components, any other one at most one
  cases hia : a.important <;> cases hib : b.important
  · simp only [Bool.false_eq_true, if_false, components_value, true_and]
    grind
  · simp only [Bool.false_eq_true, if_false, if_true, components_value,
      components_value_important (hb hib)]
    grind
  · simp only [Bool.false_eq_true, if_false, if_true, components_value,
      components_value_important (ha hia)]
    grind
  · simp only [if_true, components_value_important (ha hia), components_value_important (hb hib)]
    grind

end ClassName

/-! ## Slots -/

/-- The labels of a slot put together, as they go into a composite. -/
def Slot.condition (s : Slot) : Text := s.labels.flatten

/-- Whether two slots differ in blanks only, and in where the labels of
    nested blocks end. -/
structure Slot.Alike (s t : Slot) : Prop where
  condition : s.condition.collapse = t.condition.collapse
  selector  : s.selector.collapse = t.selector.collapse
  prop      : s.prop.collapse = t.prop.collapse

/-- The text that is hashed for a slot. -/
def Slot.text (s : Slot) : Text := groupText s.labels s.selector s.prop

namespace Slot

variable {s t : Slot}

/-- The labels of blocks put together make one component, or none. -/
theorem components_text (hselector : s.selector.collapse ≠ []) (hprop : s.prop.collapse ≠ []) :
    components [s.condition, s.selector, s.prop] =
      (if s.condition.collapse = [] then [] else [s.condition.collapse]) ++
        [s.selector.collapse, s.prop.collapse] := by
  have hrest : components [s.selector, s.prop] = [s.selector.collapse, s.prop.collapse] := by
    rw [components_cons_of_ne hselector, components_cons_of_ne hprop, components_nil]
  split
  · next h => rw [components_cons_of_blank h, hrest, List.nil_append]
  · next h => rw [components_cons_of_ne h, hrest, List.singleton_append]

theorem text_eq_iff (hs : s.selector.collapse ≠ [] ∧ s.prop.collapse ≠ [])
    (ht : t.selector.collapse ≠ [] ∧ t.prop.collapse ≠ []) : s.text = t.text ↔ s.Alike t := by
  have halike : s.Alike t ↔ s.condition.collapse = t.condition.collapse ∧
      s.selector.collapse = t.selector.collapse ∧ s.prop.collapse = t.prop.collapse :=
    ⟨fun h => ⟨h.condition, h.selector, h.prop⟩, fun h => ⟨h.1, h.2.1, h.2.2⟩⟩
  rw [halike, text, text, groupText, groupText, composite_eq_iff]
  show components [s.condition, s.selector, s.prop] =
    components [t.condition, t.selector, t.prop] ↔ _
  rw [components_text hs.1 hs.2, components_text ht.1 ht.2]
  split <;> split <;> grind

end Slot

/-! ## Placements -/

theorem isBlank_of_isAtNameChar {c : Char} (h : isAtNameChar c = true) : isBlank c = false := by
  rw [isAtNameChar, Bool.or_eq_true, decide_eq_true_iff] at h
  rcases h with h | rfl
  · exact isBlank_of_isNameStart (by rw [isNameStart, h, Bool.true_or])
  · rfl

/-- The label of a block that has been read starts with a name. -/
theorem AtRule.Plain.collapse_label_ne_nil {head : AtRule} (h : head.Plain) :
    head.label.collapse ≠ [] := by
  obtain ⟨c, name, hname⟩ := List.exists_cons_of_ne_nil h.ne_nil
  have hmem : c ∈ head.name := by simp [hname]
  exact collapse_ne_nil_of_mem (List.mem_append_left _ hmem)
    (isBlank_of_isAtNameChar (h.name_char c hmem))

theorem Selector.collapse_normalize_ne_nil {t : Text} (h : IsTrimmed t) :
    (Selector.normalize t).collapse ≠ [] := by
  have hmem : Selector.selfReference ∈ Selector.normalize t := by
    rcases Selector.normalize_cases h with ⟨hmem, hself⟩ | ⟨-, front, -, hnormal⟩
    · rwa [hself]
    · simp [hnormal]
  exact collapse_ne_nil_of_mem hmem rfl

theorem Declaration.Plain.collapse_prop_ne_nil {d : Declaration} (h : d.Plain) :
    d.prop.collapse ≠ [] := by
  obtain ⟨c, hc, hstart⟩ := h.start
  exact collapse_ne_nil_of_mem (List.mem_of_head? hc) (startsRun_iff.1 hstart).2.2.2

namespace Placement

variable {p q : Placement}

theorem text_slot_eq_iff (hp : p.Plain) (hq : q.Plain) :
    p.slot.text = q.slot.text ↔ p.slot.Alike q.slot :=
  Slot.text_eq_iff
    ⟨Selector.collapse_normalize_ne_nil hp.selector, hp.declaration.collapse_prop_ne_nil⟩
    ⟨Selector.collapse_normalize_ne_nil hq.selector, hq.declaration.collapse_prop_ne_nil⟩

/-- Where blocks are not nested, the labels are known from what they are put
    together to. -/
theorem map_collapse_labels (hp : p.Plain) (hlen : p.context.length ≤ 1) :
    p.slot.labels.map collapse =
      if p.slot.condition.collapse = [] then [] else [p.slot.condition.collapse] := by
  rw [Slot.condition, slot]
  cases hcontext : p.context with
  | nil => rfl
  | cons head more =>
    obtain rfl : more = [] := by simpa [hcontext] using hlen
    have hhead : head.Plain := hp.context head (by simp [hcontext])
    simp [hhead.collapse_label_ne_nil]

/-- The labels themselves are told apart there. -/
theorem labels_of_alike (hp : p.Plain) (hq : q.Plain) (hpl : p.context.length ≤ 1)
    (hql : q.context.length ≤ 1) (h : p.slot.Alike q.slot) :
    p.slot.labels.map collapse = q.slot.labels.map collapse := by
  rw [map_collapse_labels hp hpl, map_collapse_labels hq hql, h.condition]

end Placement

end StyleSlots
