import TableParsing.Symbol
import TableParsing.Counters
import TableParsing.Source.Span
import TableParsing.Source.Position
import TableParsing.Text.Utf8
import TableParsing.Text.Hex
import TableParsing.Text.Bounded
import TableParsing.Text.Form
import TableParsing.Text.Unprintable
import TableParsing.Text.Quoted
import TableParsing.Token
import TableParsing.Diagnostics
import TableParsing.Tree.Basic
import TableParsing.Tree.Traversal
import TableParsing.Tree.Measure
import TableParsing.Tree.Display
import TableParsing.Regex.Basic
import TableParsing.Regex.Derivative
import TableParsing.Regex.RangeSet
import TableParsing.Regex.Utf8Range
import TableParsing.Pattern.Basic
import TableParsing.Pattern.Flags
import TableParsing.Pattern.Nesting
import TableParsing.Pattern.Escape
import TableParsing.Pattern.Bracket
import TableParsing.Pattern.Reader
import TableParsing.Lexing.Engine
import TableParsing.Automaton.Basic
import TableParsing.Automaton.Image
import TableParsing.Automaton.Compiler
import TableParsing.Lexing.Tables
import TableParsing.Lexing.Lexer
import TableParsing.Lexing.Run
import TableParsing.Parsing.Tables
import TableParsing.Parsing.Reachable
import TableParsing.Parsing.Run
import TableParsing.Session
import TableParsing.Sheet
import TableParsing.Expression.Alphabet
import TableParsing.Expression.Lexing
import TableParsing.Expression.Parsing
import TableParsing.Expression.Pipeline
import TableParsing.ItemList.Alphabet
import TableParsing.ItemList.Lexing
import TableParsing.ItemList.Parsing
import TableParsing.ItemList.Pipeline
import TableParsing.CommandLine
import TableParsing.Main
import TableParsing.Proofs.Source.Position
import TableParsing.Proofs.Text.Truncation
import TableParsing.Proofs.Text.Bounded
import TableParsing.Proofs.Tree.Traversal
import TableParsing.Proofs.Tree.Postorder
import TableParsing.Proofs.Tree.Preorder
import TableParsing.Proofs.Tree.Equality
import TableParsing.Proofs.Tree.Spans
import TableParsing.Proofs.Tree.Extent
import TableParsing.Proofs.Tree.Outline
import TableParsing.Proofs.Automaton.LongestMatch
import TableParsing.Proofs.Automaton.FirstByte
import TableParsing.Proofs.Automaton.Encoding
import TableParsing.Proofs.Automaton.Loading
import TableParsing.Proofs.Lexing.Chain
import TableParsing.Proofs.Lexing.Patterns
import TableParsing.Proofs.Lexing.Wording
import TableParsing.Proofs.Lexing.Outcome
import TableParsing.Proofs.Lexing.Accounting
import TableParsing.Proofs.Parsing.Execution
import TableParsing.Proofs.Parsing.Conservation
import TableParsing.Proofs.Expression.Grammar
import TableParsing.Proofs.Expression.Stack
import TableParsing.Proofs.Expression.Recognition
import TableParsing.Proofs.Expression.CorrectPrefix
import TableParsing.Proofs.Expression.Grouping
import TableParsing.Proofs.Expression.Precedence
import TableParsing.Proofs.Expression.Lexicon
import TableParsing.Proofs.Expression.Scanner
import TableParsing.Proofs.Parsing.History
import TableParsing.Proofs.Parsing.Causality
import TableParsing.Proofs.Parsing.Failure
import TableParsing.Proofs.Parsing.Safety
import TableParsing.Proofs.Parsing.Acceptance
import TableParsing.Proofs.Parsing.Termination
import TableParsing.Proofs.ItemList.Stack
import TableParsing.Proofs.Nesting
import TableParsing.Proofs.Expression.Choices
import TableParsing.Proofs.Expression.Layout
import TableParsing.Proofs.Expression.Concatenation
import TableParsing.Proofs.Turns
import TableParsing.Proofs.Session
import TableParsing.Proofs.Expression.Pending
import TableParsing.Proofs.ItemList.Lexicon
import TableParsing.Proofs.Lexing.Counting
import TableParsing.Proofs.ItemList.Scanner
import TableParsing.Proofs.ItemList.Recognition
import TableParsing.Proofs.ItemList.Pipeline
import TableParsing.Proofs.Expression.Path
import TableParsing.Proofs.Lexing.Construction
import TableParsing.Proofs.Lexing.Search
import TableParsing.Proofs.Lexing.Storage
import TableParsing.Proofs.Text.Utf8
import TableParsing.Proofs.CommandLine
