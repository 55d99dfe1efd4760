import StyleSlots.Proofs.SortedNames
import StyleSlots.Proofs.Trace.Outcome

/-! # Moving shorthands permutes what is made

    A compiler that moves shorthands to the front walks another tree than one
    that does not. What it makes is the same but for the order.

    - **Refusal**: rules do not move, so the first rule that is nested in
      another one stays the first, with its selector and its position.
    - **Rules**: a declaration moves within its scope, and the scope tells its
      selectors and its context. It is made into the same rules wherever it
      stands.
    - **Main statement**: `compile_sorting`, both ways to compile a tree are
      refused alike, or make the same rules and names as often. -/

namespace StyleSlots

namespace Compiler

variable (c : Compiler) (tree : List Node)

/-- A tree is refused in both ways for one reason. -/
theorem compile_sorting_error_iff {e : Refusal} (first second : Bool) :
    ((c.sorting first).compile tree).2.rules = .error e ↔
      ((c.sorting second).compile tree).2.rules = .error e := by
  rw [compile_rules_eq_error_iff, compile_rules_eq_error_iff, refusal_trace, refusal_trace]
  rfl

/-- A tree that is compiled makes the same rules in both ways. -/
theorem perm_rules_sorting {sorted plain : List AtomicRule}
    (hsorted : ((c.sorting true).compile tree).2.rules = .ok sorted)
    (hplain : ((c.sorting false).compile tree).2.rules = .ok plain) : sorted.Perm plain := by
  rw [rules_of_ok hsorted, rules_of_ok hplain]
  exact (c.perm_placements_sorting tree).map (Placement.rule c.scheme)

/-- With shorthands first a tree is refused if and only if it is without, and
    for the same nested rule. If it is not refused, the rules are the same
    ones in another order, and so are the names that are reported. -/
theorem compile_sorting :
    (∃ selector source,
      ((c.sorting true).compile tree).2.rules = .error (.nestedRule selector source) ∧
      ((c.sorting false).compile tree).2.rules = .error (.nestedRule selector source)) ∨
    ∃ sorted plain sortedNames plainNames,
      ((c.sorting true).compile tree).2.rules = .ok sorted ∧
      ((c.sorting false).compile tree).2.rules = .ok plain ∧
      ((c.sorting true).compile tree).1.names = c.names ++ sortedNames ∧
      ((c.sorting false).compile tree).1.names = c.names ++ plainNames ∧
      sorted.Perm plain ∧ sortedNames.Perm plainNames := by
  cases hplain : ((c.sorting false).compile tree).2.rules with
  | error e =>
    left
    obtain ⟨_, _, _, inner, _, source, _, _, _, _, rfl, _⟩ := trace_of_error hplain
    exact ⟨_, _, (c.compile_sorting_error_iff tree true false).2 hplain, rfl⟩
  | ok plain =>
    right
    have hsorted := compile_sorting_ok hplain true
    have hperm := c.perm_rules_sorting tree hsorted hplain
    exact ⟨_, plain, _, _, hsorted, rfl, names_of_ok hsorted, names_of_ok hplain, hperm,
      hperm.map AtomicRule.className⟩

end Compiler

end StyleSlots
