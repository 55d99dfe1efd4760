import StyleSlots.Datum
import StyleSlots.Selector

/-! # Style trees

    - **Nodes**: declarations, rules with a selector list, at-rule blocks,
      comments, statements that are kept as written, and foreign data that
      a caller has put into a tree.
    - **Positions**: where a node starts in its source. Two nodes are the
      same style whatever their positions.

    A node does not know its parent: whoever walks a tree carries the
    blocks and selectors around a node along. -/

namespace StyleSlots

/-! ## Positions -/

/-- A place in a named source. Lines and columns are counted from one; a
    caller who builds a node may give other numbers. -/
structure Position where
  line   : Int
  column : Int
  source : Text
  deriving DecidableEq, Repr

namespace Position

/-- The source name used where none is given. -/
def defaultSource : Text := "<css input>".toList

/-- A position as messages show it in front of a reason. -/
def label (p : Position) : Text :=
  p.source ++ ':' :: signedNumeral p.line ++ ':' :: signedNumeral p.column

/-- A position as log entries show it. -/
def display (p : Position) : Text :=
  "SourcePosition(line=".toList ++ signedNumeral p.line ++ ", column=".toList ++
    signedNumeral p.column ++ ", source_name=".toList ++ p.source.quoted ++ [')']

end Position

/-! ## Nodes -/

/-- A property and its value. -/
structure Declaration where
  prop      : Text
  value     : Text
  important : Bool := false
  source    : Option Position := none
  deriving DecidableEq, Repr

/-- The head of an at-rule block, such as `@media (min-width: 30rem)`. -/
structure AtRule where
  name   : Text
  params : Text
  deriving DecidableEq, Repr

namespace AtRule

/-- What a block adds to the context of the declarations inside it. -/
def label (r : AtRule) : Text := r.name ++ r.params

/-- The head as it stands in a style sheet. -/
def prelude (r : AtRule) : Text :=
  if r.params.isEmpty then '@' :: r.name else '@' :: r.name ++ ' ' :: r.params

end AtRule

/-- A node of a style tree. -/
inductive Node where
  | declaration (d : Declaration)
  | rule (selectors : List Text) (nodes : List Node) (source : Option Position)
  | block (head : AtRule) (nodes : List Node) (source : Option Position)
  | comment (text : Text) (source : Option Position)
  /-- A node of a kind that the library does not compile, with the text, if
      any, by which a style sheet can carry it along. -/
  | other (kind text : Text) (source : Option Position)
  /-- A thing in a tree that is not a node. -/
  | foreign (value : Datum)
  deriving Repr

/-! ## Sameness -/

namespace Declaration

/-- Whether two declarations differ in their positions only. -/
def agrees (a b : Declaration) : Bool :=
  a.prop == b.prop && a.value == b.value && a.important == b.important

end Declaration

namespace Node

/-- Whether a node is the value that is no number. -/
def isUndefined : Node → Bool
  | foreign value => value.isUndefined
  | _ => false

mutual

/-- Whether two nodes differ in positions only. -/
def agrees : Node → Node → Bool
  | declaration a, declaration b => a.agrees b
  | rule ss ms _, rule ts ns _ => ss == ts && agreesAll ms ns
  | block a ms _, block b ns _ => a == b && agreesAll ms ns
  | comment s _, comment t _ => s == t
  | other k s _, other l t _ => k == l && s == t
  | foreign a, foreign b => a.agrees b
  | _, _ => false

/-- Whether two lists of nodes differ in positions only. -/
def agreesAll : List Node → List Node → Bool
  | [], [] => true
  | m :: ms, n :: ns => (agrees m n || m.isUndefined && n.isUndefined) && agreesAll ms ns
  | _, _ => false

end

/-- A rule whose selectors are given as one list text. -/
def ruleOf (selectorList : Text) (nodes : List Node) (source : Option Position) : Node :=
  rule (Selector.split selectorList) nodes source

/-- The declarations of a list of nodes, without those further inside. -/
def declarations : List Node → List Declaration
  | [] => []
  | declaration d :: rest => d :: declarations rest
  | _ :: rest => declarations rest

end Node

end StyleSlots
