import EditSync.Command
import EditSync.Debounce
import EditSync.Decimal
import EditSync.Editor.AutoSave
import EditSync.Editor.Capture
import EditSync.Editor.Display
import EditSync.Editor.Document
import EditSync.Editor.Loop
import EditSync.Editor.Reporter
import EditSync.Editor.Session
import EditSync.Editor.Strategy
import EditSync.Error
import EditSync.Exchange
import EditSync.Frame.Header
import EditSync.Frame.Reader
import EditSync.Frame.Writer
import EditSync.Json.Basic
import EditSync.Json.Number
import EditSync.Json.Printer
import EditSync.Json.Reader
import EditSync.Json.Record
import EditSync.Json.Token
import EditSync.Main
import EditSync.Message.Basic
import EditSync.Message.Diagnostics
import EditSync.Message.FileOperation
import EditSync.Message.Order
import EditSync.Message.TextChange
import EditSync.Network.Handlers
import EditSync.Network.Hub
import EditSync.Path
import EditSync.Proofs.Editor.Bookkeeping
import EditSync.Proofs.Editor.Course
import EditSync.Proofs.Editor.Dispatch
import EditSync.Proofs.Editor.Display
import EditSync.Proofs.Editor.Flushes
import EditSync.Proofs.Editor.Operations
import EditSync.Proofs.Editor.Pending
import EditSync.Proofs.Editor.Reactions
import EditSync.Proofs.Editor.Reports
import EditSync.Proofs.Editor.Resolving
import EditSync.Proofs.Editor.Saving
import EditSync.Proofs.Editor.Texts
import EditSync.Proofs.Editor.Ticks
import EditSync.Proofs.Editor.Timers
import EditSync.Proofs.Frame.Codec
import EditSync.Proofs.Frame.Grammar
import EditSync.Proofs.Frame.Header
import EditSync.Proofs.Frame.Lines
import EditSync.Proofs.Frame.Outbound
import EditSync.Proofs.Frame.Stream
import EditSync.Proofs.Frame.Truncation
import EditSync.Proofs.Json.Number
import EditSync.Proofs.Json.Reader
import EditSync.Proofs.Json.Record
import EditSync.Proofs.Json.Token
import EditSync.Proofs.Link.Addresses
import EditSync.Proofs.Link.Convergence
import EditSync.Proofs.Link.Dark
import EditSync.Proofs.Link.Diagnosis
import EditSync.Proofs.Link.Edits
import EditSync.Proofs.Link.Healing
import EditSync.Proofs.Link.Mending
import EditSync.Proofs.Link.Mirror
import EditSync.Proofs.Link.Orderly
import EditSync.Proofs.Link.Recovery
import EditSync.Proofs.Link.Serving
import EditSync.Proofs.Message.Deltas
import EditSync.Proofs.Message.Forms
import EditSync.Proofs.Message.Wire
import EditSync.Proofs.Network.Delivery
import EditSync.Proofs.Path.Ascent
import EditSync.Proofs.Path.Clean
import EditSync.Proofs.Settings.Layers
import EditSync.Proofs.Settings.Loading
import EditSync.Proofs.Settings.Printing
import EditSync.Proofs.Text.Boundary
import EditSync.Proofs.Text.Delta
import EditSync.Proofs.Text.Edit
import EditSync.Proofs.Text.Splice
import EditSync.Proofs.Toml.Lines
import EditSync.Proofs.Toml.Quoted
import EditSync.Proofs.Workspace.Atomicity
import EditSync.Proofs.Workspace.Calls
import EditSync.Proofs.Workspace.Confinement
import EditSync.Proofs.Workspace.Connection
import EditSync.Proofs.Workspace.Course
import EditSync.Proofs.Workspace.Coverage
import EditSync.Proofs.Workspace.Creation
import EditSync.Proofs.Workspace.Freshness
import EditSync.Proofs.Workspace.Frozen
import EditSync.Proofs.Workspace.Independence
import EditSync.Proofs.Workspace.Keys
import EditSync.Proofs.Workspace.Naming
import EditSync.Proofs.Workspace.Queueing
import EditSync.Proofs.Workspace.Registry
import EditSync.Proofs.Workspace.Relocation
import EditSync.Proofs.Workspace.Replies
import EditSync.Proofs.Workspace.Service
import EditSync.Proofs.Workspace.Spelling
import EditSync.Proofs.Workspace.Stamp
import EditSync.Settings.Effective
import EditSync.Settings.Layer
import EditSync.Settings.Load
import EditSync.Table
import EditSync.Text.Blank
import EditSync.Text.Delta
import EditSync.Text.Splice
import EditSync.Text.Utf8
import EditSync.Toml.Document
import EditSync.Toml.Quoted
import EditSync.Toml.Reader
import EditSync.Toml.Scalar
import EditSync.Workspace.ClaimSet
import EditSync.Workspace.Connection
import EditSync.Workspace.Engine
import EditSync.Workspace.Registry
import EditSync.Workspace.Service
import EditSync.Workspace.Source
import EditSync.Workspace.WorkingCopy
