import ScriptDebugger.Bootstrap.Settings
import ScriptDebugger.Engine.Snapshot
import ScriptDebugger.Main
import ScriptDebugger.Proofs.Debug.Pauses
import ScriptDebugger.Proofs.Debug.Progress
import ScriptDebugger.Proofs.Debug.StepOut
import ScriptDebugger.Proofs.Machine.Boundaries
import ScriptDebugger.Proofs.Session.Assignments
import ScriptDebugger.Proofs.Debug.References
import ScriptDebugger.Proofs.Debug.BreakpointTables
import ScriptDebugger.Proofs.Machine.Evaluator
import ScriptDebugger.Proofs.Machine.Scopes
import ScriptDebugger.Proofs.Machine.Refinement
import ScriptDebugger.Proofs.Debug.Replies
import ScriptDebugger.Proofs.Session.Operations
import ScriptDebugger.Proofs.Session.Exchange
import ScriptDebugger.Proofs.Session.Correlation
import ScriptDebugger.Proofs.Session.Handshake
import ScriptDebugger.Proofs.Debug.HookDiscipline
import ScriptDebugger.Proofs.Debug.Returns
import ScriptDebugger.Proofs.Debug.Undisturbed
import ScriptDebugger.Proofs.Wire.Lines
import ScriptDebugger.Proofs.Session.Asking
import ScriptDebugger.Proofs.Session.Breakpoints
import ScriptDebugger.Proofs.Adapter.Requests
import ScriptDebugger.Proofs.Adapter.Opening
import ScriptDebugger.Proofs.Adapter.History
import ScriptDebugger.Proofs.Adapter.Replacement
import ScriptDebugger.Proofs.Session.Positions
import ScriptDebugger.Proofs.Session.Locations
import ScriptDebugger.Proofs.Adapter.Serving
import ScriptDebugger.Proofs.Debug.CallerChain
import ScriptDebugger.Proofs.Adapter.Paging
import ScriptDebugger.Proofs.Bootstrap.Offers
import ScriptDebugger.Proofs.Source.Splitting
import ScriptDebugger.Proofs.Source.Compiling
import ScriptDebugger.Proofs.Debug.Expansion
import ScriptDebugger.Proofs.Debug.Assigning
import ScriptDebugger.Proofs.Machine.Termination
import ScriptDebugger.Proofs.Source.Arguments
import ScriptDebugger.Proofs.Source.Names
import ScriptDebugger.Proofs.Json.InQuotes
import ScriptDebugger.Proofs.Session.Displayed
import ScriptDebugger.Proofs.Debug.Environments
import ScriptDebugger.Proofs.Debug.ScopeRanges
import ScriptDebugger.Proofs.Debug.Loading
import ScriptDebugger.Proofs.Machine.Importing
import ScriptDebugger.Proofs.Adapter.HeaderLines
