import StyleSlots.Node.Reader
import StyleSlots.Proofs.Grammar.Lexemes

/-! # Style texts as sequences of items

    The grammar of style texts, said without the reader.

    - **Items**: gaps, semicolons, comments, at-statements, declarations,
      and rules and blocks with items between their braces.
    - **Spelling**: the text of an item. Nothing is written between items,
      so a gap is an item of its own.
    - **Legality**: each item is spelt as it has to be, and a declaration is
      followed by a semicolon or by nothing, that is, by a closing brace or
      the end of the text.
    - **Meaning**: the nodes of items, each placed where its item starts. -/

namespace StyleSlots

/-- A piece of a style text. -/
inductive Item where
  | gap (c : Char)
  | semicolon
  | comment (body : Text)
  /-- An at-rule that ends in a semicolon. -/
  | statement (name params : Text)
  | declaration (run : Text)
  /-- A selector list with the items between its braces. -/
  | rule (run : Text) (items : List Item)
  /-- The head of an at-rule with the items between its braces. -/
  | block (name params : Text) (items : List Item)
  deriving Repr

namespace Item

/-! ## Spelling -/

mutual

/-- The text of an item. -/
def written : Item → Text
  | gap c => [c]
  | semicolon => [';']
  | comment body => '/' :: '*' :: body ++ commentEnd
  | statement name params => '@' :: name ++ params ++ [';']
  | declaration run => run
  | rule run items => run ++ '\x7b' :: writtenAll items ++ ['\x7d']
  | block name params items => '@' :: name ++ params ++ '\x7b' :: writtenAll items ++ ['\x7d']

/-- The text of a sequence of items. -/
def writtenAll : List Item → Text
  | [] => []
  | item :: more => written item ++ writtenAll more

end

/-! ## Legality -/

/-- Whether an item has no end of its own, so that a delimiter has to stand
    behind it. -/
def isOpen : Item → Bool
  | declaration _ => true
  | _ => false

mutual

/-- Whether an item is spelt as the grammar asks. -/
def Legal : Item → Prop
  | gap c => isGap c = true
  | semicolon => True
  | comment body => ¬ commentEnd <:+: body
  | statement name params => IsAtHead name params
  | declaration run => IsRun run
  | rule run items => IsRun run ∧ LegalAll items
  | block name params items => IsAtHead name params ∧ LegalAll items

/-- Whether items are spelt as the grammar asks, one behind the other. -/
def LegalAll : List Item → Prop
  | [] => True
  | item :: more =>
    Legal item ∧ (item.isOpen = true → ∀ next ∈ more.head?, next = semicolon) ∧ LegalAll more

end

/-- Whether a text is the sequence of the given items. -/
def Spells (items : List Item) (t : Text) : Prop := LegalAll items ∧ writtenAll items = t

/-! ## Declarations -/

/-- Whether a run is a declaration: it has a colon, and in front of the first
    one a property, that is, something that is not blank. -/
def hasProperty (run : Text) : Bool :=
  run.contains ':' && (run.takeWhile (· ≠ ':')).any (! isBlank ·)

mutual

/-- The runs of the declarations of an item, each with its place, in the
    order in which they stand in the text. -/
def runs (p : Position) : Item → List (Position × Text)
  | declaration run => [(p, run)]
  | rule run items => runsAll (p.behind (run ++ ['\x7b'])) items
  | block name params items => runsAll (p.behind ('@' :: name ++ params ++ ['\x7b'])) items
  | _ => []

/-- The runs of the declarations of a sequence of items. -/
def runsAll (p : Position) : List Item → List (Position × Text)
  | [] => []
  | item :: more => runs p item ++ runsAll (p.behind (written item)) more

end

/-! ## Meaning -/

mutual

/-- The nodes of an item that starts at `p`: one, or none for gaps and
    semicolons. -/
def nodes (p : Position) : Item → List Node
  | gap _ => []
  | semicolon => []
  | comment body => [.comment body.trim (some p)]
  | statement name params => [.other ('@' :: name) ('@' :: name ++ params ++ [';']) (some p)]
  | declaration run => (Declaration.ofRun? run (some p)).toList.map .declaration
  | rule run items =>
    [.rule (Selector.split run) (nodesAll (p.behind (run ++ ['\x7b'])) items) (some p)]
  | block name params items =>
    [.block ⟨name, params.trim⟩ (nodesAll (p.behind ('@' :: name ++ params ++ ['\x7b'])) items)
      (some p)]

/-- The nodes of a sequence of items that starts at `p`. -/
def nodesAll (p : Position) : List Item → List Node
  | [] => []
  | item :: more => nodes p item ++ nodesAll (p.behind (written item)) more

end

end Item

end StyleSlots
