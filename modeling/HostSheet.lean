import HostSheet.Alpha
import HostSheet.Call.Invocation
import HostSheet.Call.Reply
import HostSheet.Call.Script
import HostSheet.Config.Basic
import HostSheet.Config.Files
import HostSheet.Config.Read
import HostSheet.Config.Text
import HostSheet.Conversion.Decode
import HostSheet.Conversion.Encode
import HostSheet.Conversion.Typed
import HostSheet.Css.Block
import HostSheet.Css.Formatter
import HostSheet.Decimal.Binary
import HostSheet.Decimal.Numeral
import HostSheet.Decimal.Shortest
import HostSheet.Diagnostic
import HostSheet.FileTree
import HostSheet.HostValue.Basic
import HostSheet.HostValue.Equality
import HostSheet.LogSetup
import HostSheet.Proofs.Call.Dispatch
import HostSheet.Proofs.Call.Outcome
import HostSheet.Proofs.Conversion.Conformance
import HostSheet.Proofs.Conversion.Decoding
import HostSheet.Proofs.Conversion.Encoding
import HostSheet.Proofs.Conversion.RoundTrip
import HostSheet.Proofs.Conversion.Tree
import HostSheet.Proofs.Result
import HostSheet.Proofs.Session.Constants
import HostSheet.Proofs.Session.Returning
import HostSheet.Proofs.Sheet.Grammar
import HostSheet.Proofs.Sheet.Levels
import HostSheet.Proofs.Sheet.Reading
import HostSheet.Proofs.Sheet.Tree
import HostSheet.Registry
import HostSheet.Session.Basic
import HostSheet.Session.Evaluation
import HostSheet.Shape
import HostSheet.Sheet.Basic
import HostSheet.Sheet.Block
import HostSheet.Sheet.Expression
import HostSheet.Sheet.Literal
import HostSheet.Sheet.Parse
import HostSheet.Sheet.Piece
import HostSheet.Sheet.Reader
import HostSheet.Sheet.Trivia
import HostSheet.Signature
import HostSheet.Source.Location
import HostSheet.Source.Text
import HostSheet.Text.Blank
import HostSheet.Text.Letter
import HostSheet.Text.Taken
import HostSheet.Toml.Document
import HostSheet.Toml.Layout
import HostSheet.Toml.Moment
import HostSheet.Toml.Node
import HostSheet.Toml.Number
import HostSheet.Toml.Pair
import HostSheet.Toml.Quoted
import HostSheet.Toml.Value
import HostSheet.Value.Basic
import HostSheet.Value.Equality
import HostSheet.Proofs.Call.History
import HostSheet.Proofs.Session.Course
import HostSheet.Proofs.Session.Evaluating
import HostSheet.Proofs.Session.Calls
import HostSheet.Proofs.Session.Dispatching
import HostSheet.Proofs.Session.Failing
import HostSheet.Proofs.Session.Flattening
import HostSheet.Proofs.Sheet.Literals
import HostSheet.Proofs.Sheet.Scanning
import HostSheet.Proofs.Sheet.Lexing
import HostSheet.Proofs.Sheet.Retexting
import HostSheet.Proofs.Sheet.Searching
import HostSheet.Proofs.Sheet.Blocks
import HostSheet.Proofs.Sheet.Comments
import HostSheet.Proofs.Sheet.Declaring
import HostSheet.Proofs.Css.Layout
import HostSheet.Proofs.Css.Rendering
import HostSheet.Proofs.Css.Quoting
import HostSheet.Proofs.Css.Scalars
import HostSheet.Proofs.Css.Joining
import HostSheet.Proofs.Css.Inspecting
import HostSheet.Proofs.Sheet.Places
import HostSheet.Proofs.Sheet.Passing
import HostSheet.Proofs.Source.Locating
import HostSheet.Proofs.Sheet.Appending
import HostSheet.Proofs.Session.Independence
import HostSheet.Proofs.Session.Reporting
import HostSheet.Proofs.Session.Warnings
import HostSheet.Proofs.Sheet.Everywhere
import HostSheet.Proofs.Text.Words
import HostSheet.Proofs.Text.Trimming
import HostSheet.Proofs.Sheet.Commas
import HostSheet.Proofs.Sheet.Spelling
import HostSheet.Proofs.Sheet.LookAhead
import HostSheet.Proofs.Decimal.Nearest
import HostSheet.Proofs.Sheet.WellFormed
import HostSheet.Source.Slice
import HostSheet.Cursor.Basic
import HostSheet.Cursor.Scan
import HostSheet.Cursor.Literal
import HostSheet.Cursor.Expression
import HostSheet.Cursor.Block
import HostSheet.Proofs.Source.Slicing
import HostSheet.Proofs.Cursor.Tracking
import HostSheet.Proofs.Cursor.Scans
import HostSheet.Proofs.Cursor.Literals
import HostSheet.Proofs.Cursor.Expressions
import HostSheet.Proofs.Cursor.Blocks
import HostSheet.Proofs.Cursor.Totality
import HostSheet.Proofs.Call.Packing
import HostSheet.Proofs.Conversion.Canonical
import HostSheet.Proofs.Equality.Pairing
import HostSheet.Proofs.Equality.Values
import HostSheet.Proofs.Conversion.Respecting
import HostSheet.Proofs.Conversion.Typing
import HostSheet.Proofs.Call.Signatures
import HostSheet.Proofs.Session.Callable
import HostSheet.Proofs.Sheet.Nesting
import HostSheet.Proofs.Css.Parentheses
import HostSheet.Proofs.Session.Unrolling
import HostSheet.Proofs.Session.Recursion
import HostSheet.Proofs.Failure
import HostSheet.Proofs.Conversion.Failing
import HostSheet.Proofs.Conversion.Reports
import HostSheet.Proofs.Conversion.Culprits
import HostSheet.Proofs.Call.Rows
import HostSheet.Source.LineStarts
import HostSheet.Proofs.Source.Indexing
import HostSheet.Proofs.Sheet.Outline
import HostSheet.Proofs.Css.Blanks
import HostSheet.Proofs.Decimal.Rounding
import HostSheet.Proofs.Decimal.Positional
import HostSheet.Proofs.Css.Magnitude
import HostSheet.Source.IndexedText
import HostSheet.Proofs.Source.Lines
import HostSheet.Proofs.Css.Skeletons
import HostSheet.Proofs.Session.Restyling
import HostSheet.Proofs.Cursor.Numbers
