import RuleEditor.Context.Options
import RuleEditor.Context.Text
import RuleEditor.Editor.Stored
import RuleEditor.Node.Pretty
import RuleEditor.Session.Basic
import RuleEditor.Proofs.Validation.Annotations
import RuleEditor.Proofs.Editor.Run
import RuleEditor.Proofs.Editor.Answers
import RuleEditor.Proofs.Editor.Settled
import RuleEditor.Proofs.Editor.Arity
import RuleEditor.Proofs.Editor.Current
import RuleEditor.Proofs.Session.Quiescence
import RuleEditor.Proofs.Binary64.Nearest
import RuleEditor.Proofs.Binary64.Shortest
import RuleEditor.Proofs.Node.Alike
import RuleEditor.Proofs.Wire.Normal
import RuleEditor.Proofs.Wire.RoundTrip
import RuleEditor.Proofs.Json.Number
import RuleEditor.Proofs.Json.Quoted
import RuleEditor.Proofs.Json.Reading
import RuleEditor.Proofs.Json.Decoding
import RuleEditor.Proofs.Wire.Depth
import RuleEditor.Proofs.Wire.Saved
import RuleEditor.Proofs.Editor.Pending
import RuleEditor.Proofs.Context.Chains
import RuleEditor.Proofs.Context.RoundTrip
import RuleEditor.Proofs.Path.Tree
import RuleEditor.Proofs.Editor.Branches
import RuleEditor.Proofs.Path.Text
import RuleEditor.Proofs.Session.Debounce
import RuleEditor.Proofs.Session.Announcements
import RuleEditor.Proofs.Editor.Shown
import RuleEditor.Proofs.Editor.Identity
import RuleEditor.Proofs.Editor.Revision
import RuleEditor.Proofs.Editor.Picked
import RuleEditor.Proofs.Validation.Complete
import RuleEditor.Proofs.Validation.Locality
import RuleEditor.Proofs.Node.Equal
import RuleEditor.Proofs.Validation.Equality
import RuleEditor.Proofs.Path.Order
import RuleEditor.Proofs.Validation.Order
import RuleEditor.Proofs.Aggregation.Reading
import RuleEditor.Proofs.Aggregation.Draft
import RuleEditor.Proofs.Path.Replacement
import RuleEditor.Proofs.Path.Removal
import RuleEditor.Proofs.Editor.Committed
import RuleEditor.Proofs.Aggregation.Agreement
import RuleEditor.Proofs.Editor.Stale
import RuleEditor.Proofs.Editor.Nesting
import RuleEditor.Proofs.Node.Agreement
import RuleEditor.Proofs.Validation.Entries
import RuleEditor.Proofs.Path.Preorder
import RuleEditor.Proofs.Validation.Evaluations
import RuleEditor.Proofs.Wire.Unsupported
import RuleEditor.Proofs.Editor.Operator
import RuleEditor.Proofs.Node.Shapes
import RuleEditor.Proofs.Constant
import RuleEditor.Proofs.Validation.Overlay
import RuleEditor.Proofs.Node.Grouping
import RuleEditor.Proofs.Node.Pretty
import RuleEditor.Proofs.Node.Lines
import RuleEditor.Proofs.Path.Listing
