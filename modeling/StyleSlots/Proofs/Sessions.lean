import StyleSlots.Compiler
import StyleSlots.Proofs.Ordered.Insertions

/-! # Compiling one tree after the other

    A compiler is used again and again, and what it keeps is changed while
    a tree is walked: names and nodes are kept as they come up, also those
    in front of a refusal.

    - **Observation**: what one event changes, and with it what a whole
      compilation changes.
    - **Resumption**: a compiler in the middle of a session and one that has
      compiled nothing yet stay the same, step by step, apart from the names
      made earlier. Every event keeps this, and every compilation starts it
      anew.
    - **Main statement**: `compileAll_fresh`, a session answers as a fresh
      compiler does to each tree alone, refused or not. -/

namespace StyleSlots

namespace Compiler

/-! ## Events change a compiler -/

/-- What a compiler keeps of an event. -/
def observe (c : Compiler) : Event → Compiler
  | .made rule => { c with names := c.names ++ [rule.className] }
  | .carried node => { c with carried := c.carried ++ [node] }
  | _ => c

/-- The compiler as it starts to walk a tree: only the names of earlier trees
    are left. -/
def reset (c : Compiler) : Compiler := { c with carried := [] }

/-- A compiler with the same settings that has compiled nothing yet. -/
def fresh (c : Compiler) : Compiler := { c with carried := [], names := [] }

theorem foldl_observe (events : List Event) (c : Compiler) :
    events.foldl observe c =
      { c with
        carried := c.carried ++ events.filterMap Event.carried?
        names := c.names ++ (events.filterMap Event.rule?).map AtomicRule.className } := by
  induction events generalizing c with
  | nil => simp
  | cons event events ih =>
    rw [List.foldl_cons, ih]
    cases event <;> simp [observe, Event.carried?, Event.rule?, List.filterMap_cons]

/-- A compilation changes a compiler one event at a time, whether it is
    refused at the end or not. -/
theorem compile_fst (c : Compiler) (nodes : List Node) :
    (c.compile nodes).1 = (c.trace nodes).events.foldl observe c.reset := by
  rw [foldl_observe]
  rfl

/-! ## A compiler in use and a fresh one -/

/-- `s` is what `t` is, apart from the names that were made earlier. -/
structure Resumes (earlier : List Text) (s t : Compiler) : Prop where
  scheme_eq         : s.scheme = t.scheme
  shorthandFirst_eq : s.shorthandFirst = t.shorthandFirst
  carried_eq        : s.carried = t.carried
  names_eq          : s.names = earlier ++ t.names

theorem resumes_reset_fresh (c : Compiler) : Resumes c.names c.reset c.fresh :=
  ⟨rfl, rfl, rfl, (List.append_nil _).symm⟩

namespace Resumes

variable {earlier : List Text} {s t : Compiler}

/-- One event changes both in the same way. -/
theorem observe (h : Resumes earlier s t) (event : Event) :
    Resumes earlier (s.observe event) (t.observe event) := by
  -- an event changes one field at most, and adds the same to it on both sides
  cases event with
  | made rule =>
    refine { h with names_eq := ?_ }
    change s.names ++ [rule.className] = earlier ++ (t.names ++ [rule.className])
    rw [h.names_eq, List.append_assoc]
  | carried node =>
    refine { h with carried_eq := ?_ }
    change s.carried ++ [node] = t.carried ++ [node]
    rw [h.carried_eq]
  | droppedBlock head selectors => exact h
  | droppedNode node => exact h

theorem foldl_observe (h : Resumes earlier s t) (events : List Event) :
    Resumes earlier (events.foldl Compiler.observe s) (events.foldl Compiler.observe t) := by
  induction events generalizing s t with
  | nil => exact h
  | cons event events ih => exact ih (h.observe event)

end Resumes

/-- A compilation leaves a compiler as it leaves a fresh one, apart from the
    names that were made before. -/
theorem resumes_compile (c : Compiler) (nodes : List Node) :
    Resumes c.names (c.compile nodes).1 (c.fresh.compile nodes).1 := by
  rw [compile_fst, compile_fst]
  exact c.resumes_reset_fresh.foldl_observe _

/-! ## Sessions -/

/-- Compiles trees one after the other, each with what the last one left. -/
def compileAll (c : Compiler) : List (List Node) → Compiler × List Compilation
  | [] => (c, [])
  | nodes :: more =>
    let (next, answer) := c.compile nodes
    let (last, answers) := next.compileAll more
    (last, answer :: answers)

theorem compileAll_cons (c : Compiler) (nodes : List Node) (more : List (List Node)) :
    c.compileAll (nodes :: more) =
      (((c.compile nodes).1.compileAll more).1,
        (c.compile nodes).2 :: ((c.compile nodes).1.compileAll more).2) := rfl

theorem compileAll_append (c : Compiler) (trees more : List (List Node)) :
    c.compileAll (trees ++ more) =
      (((c.compileAll trees).1.compileAll more).1,
        (c.compileAll trees).2 ++ ((c.compileAll trees).1.compileAll more).2) := by
  induction trees generalizing c with
  | nil => rfl
  | cons nodes trees ih => rw [List.cons_append, compileAll_cons, ih, compileAll_cons]; rfl

/-- The settings, and with them what a fresh compiler does, are never
    changed. -/
theorem fresh_compileAll (c : Compiler) (trees : List (List Node)) :
    (c.compileAll trees).1.fresh = c.fresh := by
  induction trees generalizing c with
  | nil => rfl
  | cons nodes trees ih => rw [compileAll_cons, ih]; rfl

theorem answers_compileAll (c : Compiler) (trees : List (List Node)) :
    (c.compileAll trees).2 = trees.map fun nodes => (c.fresh.compile nodes).2 := by
  induction trees generalizing c with
  | nil => rfl
  | cons nodes trees ih => rw [compileAll_cons, ih, List.map_cons]; rfl

theorem names_compileAll (c : Compiler) (trees : List (List Node)) :
    (c.compileAll trees).1.names =
      c.names ++ trees.flatMap fun nodes => (c.fresh.compile nodes).1.names := by
  induction trees generalizing c with
  | nil => exact (List.append_nil _).symm
  | cons nodes trees ih =>
    -- the rest of the session starts with the names of `c` and of `nodes`; what
    -- is fresh for it is fresh for `c`
    rw [compileAll_cons, ih, (c.resumes_compile nodes).names_eq, List.flatMap_cons,
      List.append_assoc]
    rfl

/-- After any session, the last call of which compiles `nodes`: each answer,
    that is the rules or the refusal and the log, is the one that a fresh
    compiler gives to the same tree, and the nodes carried along are the ones
    that a fresh compiler carries along for `nodes`. The names, if there were
    none at first, are those of fresh compilations put together, each with
    what came up in front of its refusal. -/
theorem compileAll_fresh (c : Compiler) (before : List (List Node)) (nodes : List Node) :
    (c.compileAll (before ++ [nodes])).2 =
      (before ++ [nodes]).map (fun tree => (c.fresh.compile tree).2) ∧
    (c.compileAll (before ++ [nodes])).1.carried = (c.fresh.compile nodes).1.carried ∧
    (c.compileAll (before ++ [nodes])).1.names = c.names ++
      (before ++ [nodes]).flatMap (fun tree => (c.fresh.compile tree).1.names) ∧
    (c.compileAll (before ++ [nodes])).1.distinctNames = distinct (c.names ++
      (before ++ [nodes]).flatMap (fun tree => (c.fresh.compile tree).1.names)) := by
  have hlast : (c.compileAll (before ++ [nodes])).1 =
      ((c.compileAll before).1.compile nodes).1 := by
    rw [compileAll_append, compileAll_cons]
    rfl
  refine ⟨answers_compileAll .., ?_, names_compileAll .., ?_⟩
  · rw [hlast, (resumes_compile _ nodes).carried_eq, fresh_compileAll]
  · rw [distinctNames, OrderedSet.toList_ofList, names_compileAll]

/-- A tree that is refused at its second node, between two that are not. -/
example : ((Compiler.mk .default false [] []).compileAll
    [[.block ⟨"page".toList, []⟩ [] none],
     [.declaration ⟨"color".toList, "red".toList, false, none⟩,
      .rule [['p']] [.rule [['a']] [] none] none],
     [.other "import".toList "@import \"a.css\"".toList none]]).1.carried =
    [.other "import".toList "@import \"a.css\"".toList none] := rfl

end Compiler

end StyleSlots
