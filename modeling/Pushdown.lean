import Pushdown.Grammar.Draft
import Pushdown.Main
import Pushdown.Proofs.Json.Escape
import Pushdown.Proofs.Json.Digits
import Pushdown.Proofs.Json.Access
import Pushdown.Proofs.Json.RoundTrip
import Pushdown.Proofs.Table.Structure
import Pushdown.Tree.Lexemes
import Pushdown.Proofs.Table.FirstSets
import Pushdown.Proofs.Table.FirstSearch
import Pushdown.Proofs.Table.Lookup
import Pushdown.Proofs.Table.Compile
import Pushdown.Proofs.Table.Names
import Pushdown.Proofs.Table.Json
import Pushdown.Proofs.Table.Sorted
import Pushdown.Proofs.Table.Renumbered
import Pushdown.Proofs.Grammar.Sound
import Pushdown.Proofs.Grammar.Compiled
import Pushdown.Proofs.Grammar.RoundTrip
import Pushdown.Proofs.Grammar.Lookup
import Pushdown.Proofs.Tree.Derivation
import Pushdown.Proofs.Tree.Span
import Pushdown.Proofs.Tree.Alike
import Pushdown.Proofs.Tree.Copy
import Pushdown.Proofs.Tree.Occurrence
import Pushdown.Proofs.Tree.Lexemes
import Pushdown.Proofs.Parser.Search
import Pushdown.Proofs.Parser.Step
import Pushdown.Proofs.Parser.Stack
import Pushdown.Proofs.Parser.Checked
import Pushdown.Proofs.Parser.Soundness
import Pushdown.Proofs.Parser.PartialTree
import Pushdown.Proofs.Parser.Completeness
import Pushdown.Proofs.Parser.Expected
import Pushdown.Proofs.Parser.Stepwise
import Pushdown.Proofs.Parser.Opened
import Pushdown.Proofs.Parser.Progress
import Pushdown.Proofs.Parser.Depth
import Pushdown.Proofs.Parser.ViablePrefix
import Pushdown.Proofs.Parser.Parallel
import Pushdown.Proofs.Parser.SameLabels
import Pushdown.Proofs.Parser.Spans
import Pushdown.Proofs.Parser.Lexemes
import Pushdown.Proofs.Grammar.Follow
import Pushdown.Proofs.Grammar.Renumbered
import Pushdown.Proofs.Draft.Parts
import Pushdown.Proofs.Draft.Step
import Pushdown.Proofs.Draft.History
import Pushdown.Proofs.Draft.Table
import Pushdown.Proofs.Draft.Records
import Pushdown.Proofs.Draft.Consistent
import Pushdown.Proofs.Lexer.Munch
import Pushdown.Proofs.Lexer.Coverage
import Pushdown.Proofs.Lexer.Determined
import Pushdown.Proofs.Lexer.Lines
import Pushdown.Proofs.Tree.Preorder
import Pushdown.Proofs.Grammar.LabelTables
import Pushdown.Proofs.Table.Casts
import Pushdown.Proofs.Parser.Numbered
import Pushdown.Proofs.Text.Position
import Pushdown.Proofs.Command.Diagnostic
import Pushdown.Proofs.Parser.Rendered
