import LiveMarkdown.Markdown.Reader
import LiveMarkdown.Node.Update
import LiveMarkdown.Proofs.Completion.Idempotence
import LiveMarkdown.Proofs.Stream.OneShot
import LiveMarkdown.Stream.Session
import LiveMarkdown.Value.Render
import LiveMarkdown.Proofs.Completion.Boundary
import LiveMarkdown.Proofs.Completion.ClosingLine
import LiveMarkdown.Proofs.Graft.Content
import LiveMarkdown.Proofs.Graft.ContentModel
import LiveMarkdown.Proofs.Stream.Tables
import LiveMarkdown.Proofs.Stream.Speculation
import LiveMarkdown.Proofs.Markup.WellFormed
import LiveMarkdown.Proofs.Completion.Reopening
import LiveMarkdown.Proofs.Completion.LineEndings
import LiveMarkdown.Proofs.Completion.CodeContents
import LiveMarkdown.Proofs.Completion.CodeSpans
import LiveMarkdown.Proofs.Graft.TaskLists
import LiveMarkdown.Proofs.Stream.TaskLists
import LiveMarkdown.Proofs.Markup.Text
import LiveMarkdown.Proofs.Graft.Frame
import LiveMarkdown.Proofs.Graft.Destination
import LiveMarkdown.Proofs.Completion.ScanStates
import LiveMarkdown.Proofs.Completion.HalfCloser
import LiveMarkdown.Proofs.Graft.Merging
import LiveMarkdown.Proofs.Graft.Gathering
import LiveMarkdown.Proofs.Completion.SeparatorRow
import LiveMarkdown.Proofs.Completion.Escaping
import LiveMarkdown.Proofs.Stream.Reconciliation
import LiveMarkdown.Proofs.Stream.Validation
import LiveMarkdown.Proofs.Markup.WrittenForm
import LiveMarkdown.Proofs.Node.Places
import LiveMarkdown.Proofs.Node.Violations
import LiveMarkdown.Proofs.Node.Walks
import LiveMarkdown.Proofs.Markup.References
import LiveMarkdown.Proofs.Node.Records
