import Reckoner.CommandLine
import Reckoner.Console.LineEditor
import Reckoner.Console.Plain
import Reckoner.Console.Script
import Reckoner.Desk.Basic
import Reckoner.Desk.Help
import Reckoner.Desk.Input
import Reckoner.Desk.Transcript
import Reckoner.Desk.View
import Reckoner.Desk.Watch
import Reckoner.Expression.Evaluation
import Reckoner.Expression.Fault
import Reckoner.Expression.Highlight
import Reckoner.Expression.Literal
import Reckoner.Expression.Operation
import Reckoner.Expression.Reader
import Reckoner.Expression.Spacing
import Reckoner.Expression.Token
import Reckoner.Files.Path
import Reckoner.Files.Survey
import Reckoner.Files.Tree
import Reckoner.History
import Reckoner.Number.Arithmetic
import Reckoner.Number.Basic
import Reckoner.Number.Decimal
import Reckoner.Number.Notation
import Reckoner.Number.Rounding
import Reckoner.Screen.Canvas
import Reckoner.Screen.Paragraph
import Reckoner.Screen.Style
import Reckoner.Screen.Window
import Reckoner.Session.Basic
import Reckoner.Session.Command
import Reckoner.Session.Dialogue
import Reckoner.Session.Reply
import Reckoner.Text.Blank
import Reckoner.Text.Cluster
import Reckoner.Text.Invisible
import Reckoner.Text.Lines
import Reckoner.Text.Marks
import Reckoner.Text.Ranges
import Reckoner.Text.Utf8
import Reckoner.Text.Wide
import Reckoner.Text.Width
import Reckoner.Text.Wrap
import Reckoner.Main
import Reckoner.Proofs.Expression.Cut
import Reckoner.Proofs.Expression.Hom
import Reckoner.Proofs.Expression.Grammar
import Reckoner.Proofs.Expression.Parsing
import Reckoner.Proofs.Expression.Faults
import Reckoner.Proofs.Session.Calls
import Reckoner.Proofs.Session.Lines
import Reckoner.Proofs.Text.Utf8
import Reckoner.Proofs.Session.Dialogue
import Reckoner.Proofs.Console.Agreement
import Reckoner.Proofs.Expression.Calculations
import Reckoner.Proofs.Text.Lines
import Reckoner.Proofs.Files.Path
import Reckoner.Proofs.Files.Tree
import Reckoner.Proofs.Files.Enclosing
import Reckoner.Proofs.History.Saving
import Reckoner.Proofs.History.RoundTrip
import Reckoner.Proofs.Session.Saving
import Reckoner.Proofs.Console.Script
import Reckoner.Proofs.Session.Resuming
import Reckoner.Proofs.CommandLine.Resuming
import Reckoner.Proofs.Desk.Editing
import Reckoner.Proofs.Desk.Actions
import Reckoner.Proofs.Number.Rounding
import Reckoner.Proofs.Number.Shortest
import Reckoner.Proofs.Text.Unblanked
import Reckoner.Proofs.Text.Words
import Reckoner.Proofs.Expression.Lexemes
import Reckoner.Proofs.Expression.Accepted
import Reckoner.Proofs.Expression.Insertion
import Reckoner.Proofs.Expression.Spacing
import Reckoner.Proofs.Expression.Written
import Reckoner.Proofs.Session.Commands
import Reckoner.Proofs.Desk.Shown
import Reckoner.Proofs.Session.Entries
import Reckoner.Proofs.Text.Pieces
import Reckoner.Proofs.Text.Decoding
import Reckoner.Proofs.History.Loading
import Reckoner.Proofs.Session.Answers
import Reckoner.Proofs.Console.Reading
import Reckoner.Proofs.Console.Editing
import Reckoner.Proofs.Console.Draft
import Reckoner.Proofs.Console.Editors
import Reckoner.Proofs.Console.Columns
import Reckoner.Proofs.Text.Unwords
import Reckoner.Proofs.Text.Wrap
import Reckoner.Proofs.Desk.Scrolling
import Reckoner.Proofs.Desk.Redrawing
import Reckoner.Proofs.Expression.Highlight
import Reckoner.Proofs.Number.Bounds
import Reckoner.Proofs.Desk.Rows
import Reckoner.Proofs.Desk.Turns
import Reckoner.Proofs.Desk.Listing
import Reckoner.Proofs.Desk.Newest
import Reckoner.Proofs.Desk.Leaving
import Reckoner.Proofs.Console.Truncation
import Reckoner.Proofs.Console.LineFeeds
import Reckoner.Proofs.Session.Details
import Reckoner.Proofs.History.Choosing
import Reckoner.Proofs.Number.Compact
import Reckoner.Proofs.Expression.Respacing
import Reckoner.Proofs.Desk.WordMoves
import Reckoner.Proofs.Desk.HelpScroll
import Reckoner.Proofs.Expression.Descent
import Reckoner.Proofs.Expression.Ahead
import Reckoner.Proofs.Expression.Recursion
