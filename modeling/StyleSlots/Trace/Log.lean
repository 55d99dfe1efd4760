import StyleSlots.Trace.Basic

/-! # The log of a compilation

    - **Warnings**: a block inside a rule is left out, which an author
      hardly intends.
    - **Notes**: nodes that are carried along or left out, and a count at
      the end of a compilation that was not refused. -/

namespace StyleSlots

/-! ## Entries -/

/-- How much an entry matters. -/
inductive Level where
  | debug
  | warning
  deriving DecidableEq, Repr

/-- The name of a level. -/
def Level.name : Level → Text
  | debug => "DEBUG".toList
  | warning => "WARNING".toList

/-- A line of the log. -/
structure LogEntry where
  level   : Level
  message : Text
  deriving DecidableEq, Repr

/-! ## Wording -/

/-- A node that was left out, as the log shows it. -/
def Node.display : Node → Text
  | .other kind text source =>
    "UnknownNode(kind=".toList ++ kind.quoted ++ ", text=".toList ++ text.quoted ++
      ", source=".toList ++ (source.elim "None".toList Position.display) ++ [')']
  | .foreign value => value.display
  | node => node.css

/-- What the log says about an event. -/
def Event.entry? : Event → Option LogEntry
  | .made _ => none
  | .carried (.block head _ _) =>
    some ⟨.debug, "Passing through at-rule ".toList ++ head.prelude⟩
  | .carried (.other kind _ _) =>
    some ⟨.debug, "Passing through ".toList ++ kind ++ " statement".toList⟩
  | .carried _ => none
  | .droppedBlock head selectors =>
    some ⟨.warning, "Dropping ".toList ++ head.prelude ++ " nested inside rule ".toList ++
      (Selector.joinList selectors).quoted ++ "; hoist it out of the rule first".toList⟩
  | .droppedNode node => some ⟨.debug, "Dropping unrecognized node ".toList ++ node.display⟩

/-- The entry at the end of a compilation. -/
def countEntry (nodes rules : Nat) : LogEntry :=
  ⟨.debug, "Compiled ".toList ++ decimalNumeral nodes ++ " top-level node(s) into ".toList ++
    decimalNumeral rules ++ " atomic rule(s)".toList⟩

/-- The log of a compilation of a tree of `nodes` top-level nodes. -/
def Trace.log (t : Trace) (nodes : Nat) : List LogEntry :=
  t.events.filterMap Event.entry? ++
    if t.refusal.isSome then [] else [countEntry nodes t.rules.length]

end StyleSlots
