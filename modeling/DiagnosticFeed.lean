import DiagnosticFeed.Main
import DiagnosticFeed.TextSpan
import DiagnosticFeed.Proofs.Feed.Step
import DiagnosticFeed.Proofs.Feed.Run
import DiagnosticFeed.Proofs.Feed.Delivery
import DiagnosticFeed.Proofs.Feed.Looking
import DiagnosticFeed.Proofs.Log.FinalState
import DiagnosticFeed.Proofs.Position.Rank
import DiagnosticFeed.Proofs.FileKey.Drift
import DiagnosticFeed.Proofs.FileKey.Equivalence
import DiagnosticFeed.Proofs.Log.WholeFile
import DiagnosticFeed.Proofs.Store.Addressing
import DiagnosticFeed.Proofs.Message.Published
import DiagnosticFeed.Proofs.Dependency.Roots
import DiagnosticFeed.Proofs.Store.History
import DiagnosticFeed.Proofs.Store.Clearing
import DiagnosticFeed.Proofs.Store.Outside
import DiagnosticFeed.Proofs.Timer.Deadline
import DiagnosticFeed.Proofs.Feed.Attachment
import DiagnosticFeed.Proofs.Store.Listing
import DiagnosticFeed.Proofs.Json.Scanning
import DiagnosticFeed.Proofs.Json.Layout
import DiagnosticFeed.Proofs.Json.Fields
import DiagnosticFeed.Proofs.Json.Buffering
import DiagnosticFeed.Proofs.Feed.Reordering
import DiagnosticFeed.Proofs.Log.Answers
import DiagnosticFeed.Proofs.Log.Framing
import DiagnosticFeed.Proofs.Text.FirstLines
import DiagnosticFeed.Proofs.Log.Stopping
import DiagnosticFeed.Proofs.FileKey.Nesting
import DiagnosticFeed.Proofs.Store.Nesting
import DiagnosticFeed.Proofs.Diagnostic.RoundTrip
import DiagnosticFeed.Proofs.Log.Reports
import DiagnosticFeed.Proofs.Settings.RoundTrip
import DiagnosticFeed.Proofs.Command.Shown
import DiagnosticFeed.Proofs.FileKey.Rooted
import DiagnosticFeed.Proofs.FileKey.Components
import DiagnosticFeed.Proofs.FileKey.Resolving
import DiagnosticFeed.Proofs.Store.Widening
import DiagnosticFeed.Proofs.Position.Points
import DiagnosticFeed.Proofs.Text.Offsets
import DiagnosticFeed.Proofs.Severity.Precedence
import DiagnosticFeed.Proofs.Message.Stricter
import DiagnosticFeed.Proofs.Dependency.Rootless
import DiagnosticFeed.Proofs.Store.Triggers
import DiagnosticFeed.Proofs.Report.Grouping
import DiagnosticFeed.Proofs.Report.Places
import DiagnosticFeed.Proofs.Log.Waits
import DiagnosticFeed.Proofs.Log.Reversed
import DiagnosticFeed.Proofs.Command.Conforming
