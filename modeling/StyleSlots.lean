import StyleSlots.Main
import StyleSlots.Proofs.ClassList.LastWins
import StyleSlots.Proofs.SortedNames
import StyleSlots.Scheme.Given
import StyleSlots.Proofs.Cascade.ShorthandsFirst
import StyleSlots.Proofs.Text.Numerals
import StyleSlots.Proofs.Text.Spans
import StyleSlots.Proofs.Text.Trimmed
import StyleSlots.Proofs.ClassName.Composite
import StyleSlots.Proofs.Grammar.Items
import StyleSlots.Proofs.Grammar.Reading
import StyleSlots.Proofs.Grammar.Accepted
import StyleSlots.Proofs.Selector.Lists
import StyleSlots.Proofs.Node.Declarations
import StyleSlots.Proofs.Node.Occurrences
import StyleSlots.Proofs.Node.RoundTrip
import StyleSlots.Proofs.Node.Places
import StyleSlots.Proofs.Trace.Places
import StyleSlots.Proofs.Trace.Outcome
import StyleSlots.Proofs.Cascade.InOrder
import StyleSlots.Proofs.Trace.Carried
import StyleSlots.Proofs.Trace.Misplaced
import StyleSlots.Proofs.Text.Quotes
import StyleSlots.Proofs.Selector.Scoping
import StyleSlots.Proofs.Trace.Origins
import StyleSlots.Proofs.ScopedRules
import StyleSlots.Proofs.ClassName.Alike
import StyleSlots.Proofs.SharedNames
import StyleSlots.Proofs.Cascade.Emissions
import StyleSlots.Proofs.ClassName.Identifiers
import StyleSlots.Proofs.ClassList.Memos
import StyleSlots.Proofs.Sessions
import StyleSlots.Proofs.Node.Sequences
import StyleSlots.Proofs.Selector.Concrete
import StyleSlots.Proofs.StyleSheet
import StyleSlots.Proofs.Cascade.Overtaking
import StyleSlots.Proofs.SortedRules
import StyleSlots.Proofs.Selector.JoinedLists
import StyleSlots.Proofs.ClassList.ShortCut
import StyleSlots.Proofs.ClassList.Counts
import StyleSlots.Proofs.Node.Positions
import StyleSlots.Proofs.Trace.Unplaced
import StyleSlots.Proofs.JoinedTexts
import StyleSlots.Proofs.GrowingSheets
import StyleSlots.Proofs.Digest.Lengths
import StyleSlots.Proofs.Node.Lines
import StyleSlots.Proofs.SheetLines
