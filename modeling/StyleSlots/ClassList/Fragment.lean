import StyleSlots.ClassName
import StyleSlots.Ordered.Map
import StyleSlots.Ordered.Set

/-! # Fragments

    The outcome of a merge of class names, which can go into another merge.

    - **Plain classes**: the names that are no generated ones, each once.
    - **Groups**: for each group key the generated name that was written
      last, in the place where the group came first.

    A class attribute lists the plain classes before the generated ones. -/

namespace StyleSlots

/-! ## Classified tokens -/

/-- A token of a class text with its group key, which only a generated
    class name has. -/
abbrev Classified : Type := Option Text × Text

/-- The tokens of a class text, with their group keys. -/
def classify (scheme : Scheme) (classes : Text) : List Classified :=
  classes.words.map fun token => (ClassName.groupKey? scheme token, token)

/-! ## Fragments -/

/-- Merged class names. -/
structure Fragment where
  classes : OrderedSet Text
  groups  : OrderedMap Text Text
  deriving DecidableEq, Repr

namespace Fragment

/-- The fragment without tokens. -/
def empty : Fragment := ⟨.empty, .empty⟩

/-- The fragment of the given classes and pairs of a group key and a name. -/
def ofLists (classes : List Text) (groups : List (Text × Text)) : Fragment :=
  ⟨.ofList classes, .ofList groups⟩

/-- All tokens, plain classes first. -/
def tokens (f : Fragment) : List Text := f.classes.toList ++ f.groups.values

/-- The number of tokens. -/
def size (f : Fragment) : Nat := f.classes.size + f.groups.size

/-- The tokens as the text of a class attribute. -/
def classText (f : Fragment) : Text := Text.join [' '] f.tokens

/-! ## Merging -/

/-- Takes in a token: a plain class unless it is there, a generated name in
    place of any other of its group. -/
def insert (f : Fragment) : Classified → Fragment
  | (none, token) => { f with classes := f.classes.insert token }
  | (some key, token) => { f with groups := f.groups.insert key token }

/-- Takes in tokens, first to last. -/
def insertMany (f : Fragment) (tokens : List Classified) : Fragment := tokens.foldl insert f

/-- Takes in another fragment. -/
def append (f g : Fragment) : Fragment where
  classes := f.classes.insertMany g.classes.toList
  groups  := f.groups.insertMany g.groups.toList

/-! ## Display -/

/-- The form in which a fragment is shown to a programmer. -/
def display (f : Fragment) : Text :=
  "AtomicGroups(".toList ++
    Text.braced (f.groups.toList.map fun p => (p.1.quoted, p.2.quoted)) ++
    ", classes=".toList ++ Text.bracketed (f.classes.toList.map Text.quoted) ++ [')']

end Fragment

end StyleSlots
