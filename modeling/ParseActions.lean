import ParseActions.Json.Printer
import ParseActions.Session.Command
import ParseActions.Trace.Builder
import ParseActions.Proofs.Keyed
import ParseActions.Proofs.Trace.Validity
import ParseActions.Proofs.Memo.Dispatch
import ParseActions.Proofs.Memo.Basic
import ParseActions.Proofs.Memo.Entering
import ParseActions.Proofs.Memo.Cases
import ParseActions.Proofs.Memo.Progress
import ParseActions.Proofs.Memo.Ending
import ParseActions.Proofs.Memo.Reference
import ParseActions.Proofs.Trace.Visit
import ParseActions.Proofs.Trace.Recursion
import ParseActions.Proofs.Walk.Memo
import ParseActions.Proofs.Memo.Stability
import ParseActions.Proofs.Memo.Caching
import ParseActions.Proofs.Memo.Once
import ParseActions.Proofs.Memo.Leniency
import ParseActions.Proofs.Memo.Listing
import ParseActions.Proofs.Walk.History
import ParseActions.Proofs.Walk.Panels
import ParseActions.Proofs.Walk.Errors
import ParseActions.Proofs.Walk.Requests
import ParseActions.Proofs.Session.Refresh
import ParseActions.Proofs.Memo.Infection
import ParseActions.Proofs.Memo.Fresh
import ParseActions.Proofs.Walk.ShowFailures
import ParseActions.Proofs.Walk.Restriction
import ParseActions.Proofs.Session.Course
import ParseActions.Proofs.Session.Invariant
import ParseActions.Proofs.Session.Refusals
import ParseActions.Proofs.Trace.Verdict
import ParseActions.Proofs.Session.Debounce
import ParseActions.Proofs.Session.Drafts
import ParseActions.Proofs.Session.Sources
import ParseActions.Proofs.Trace.Building
import ParseActions.Proofs.Trace.Traversal
import ParseActions.Proofs.Action.Readings
import ParseActions.Proofs.Body.Expression
import ParseActions.Proofs.Action.Rejections
import ParseActions.Proofs.Body.Placement
import ParseActions.Proofs.Body.Braces
import ParseActions.Proofs.Body.Height
import ParseActions.Proofs.Body.Termination
import ParseActions.Proofs.Eval.Scopes
import ParseActions.Proofs.Eval.Gas
import ParseActions.Proofs.Eval.Sizes
import ParseActions.Proofs.Token.Nesting
import ParseActions.Proofs.Eval.Sandbox
import ParseActions.Proofs.Eval.Range
import ParseActions.Proofs.Action.Defaults
import ParseActions.Proofs.Trace.Factors
import ParseActions.Proofs.Walk.Consumption
import ParseActions.Proofs.Trace.Json
import ParseActions.Proofs.Walk.Nesting
import ParseActions.Proofs.Eval.Methods
import ParseActions.Proofs.Eval.Literals
import ParseActions.Proofs.Body.Place
import ParseActions.Proofs.Eval.Slices
import ParseActions.Proofs.Action.Spelling
import ParseActions.Proofs.Action.Bindings
import ParseActions.Proofs.Walk.Keys
import ParseActions.Proofs.Session.Moves
import ParseActions.Proofs.Session.Fingerprints
import ParseActions.Proofs.Text.Pieces
