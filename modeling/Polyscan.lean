import Polyscan.Analyzer.Basic
import Polyscan.Analyzer.Catalogue
import Polyscan.Analyzer.Registry
import Polyscan.Analyzer.Run
import Polyscan.Audit
import Polyscan.Bus.Basic
import Polyscan.Bus.Reactive
import Polyscan.Config
import Polyscan.Diagnostic
import Polyscan.Event
import Polyscan.Fault
import Polyscan.Finding
import Polyscan.Finding.Check
import Polyscan.Host.Basic
import Polyscan.Host.Edit
import Polyscan.Host.FileTree
import Polyscan.Ids
import Polyscan.Json.Basic
import Polyscan.Json.Display
import Polyscan.Json.Reader
import Polyscan.Json.Writer
import Polyscan.Logging
import Polyscan.Number.Decimal
import Polyscan.Number.Double
import Polyscan.OrderedMap
import Polyscan.Path
import Polyscan.Pattern.Alternatives
import Polyscan.Pattern.Charset
import Polyscan.Pattern.Matcher
import Polyscan.Pattern.Reader
import Polyscan.Pattern.Reader.Basic
import Polyscan.Pattern.Reader.Escape
import Polyscan.Pattern.Reader.Group
import Polyscan.Pattern.Reader.Option
import Polyscan.Pattern.Reader.Repetition
import Polyscan.Pattern.Reader.Set
import Polyscan.Pattern.Search
import Polyscan.Pattern.Syntax
import Polyscan.PatternRule
import Polyscan.Plugin.Basic
import Polyscan.Plugin.Engine
import Polyscan.Plugin.Module
import Polyscan.Proofs.Abiding
import Polyscan.Proofs.Audit
import Polyscan.Proofs.Audit.Recent
import Polyscan.Proofs.BuiltIn
import Polyscan.Proofs.Catalogue.Agreement
import Polyscan.Proofs.Catalogue.Blame
import Polyscan.Proofs.Catalogue.Description
import Polyscan.Proofs.Catalogue.Listing
import Polyscan.Proofs.Conduct
import Polyscan.Proofs.Delivery
import Polyscan.Proofs.Enactment
import Polyscan.Proofs.Expansion
import Polyscan.Proofs.FileTree
import Polyscan.Proofs.Finding.Offence
import Polyscan.Proofs.Finding.Refusal
import Polyscan.Proofs.Finding.Sound
import Polyscan.Proofs.Finding.Written
import Polyscan.Proofs.Gathering
import Polyscan.Proofs.Host
import Polyscan.Proofs.Ids
import Polyscan.Proofs.Items
import Polyscan.Proofs.Json.Escape
import Polyscan.Proofs.Json.Fragment
import Polyscan.Proofs.Json.Notation
import Polyscan.Proofs.Json.Number
import Polyscan.Proofs.KeyedCache
import Polyscan.Proofs.Listening
import Polyscan.Proofs.OrderedMap
import Polyscan.Proofs.Path
import Polyscan.Proofs.Pattern
import Polyscan.Proofs.Pattern.Backtracking
import Polyscan.Proofs.Pattern.Succession
import Polyscan.Proofs.PatternRule
import Polyscan.Proofs.Performance
import Polyscan.Proofs.Publication
import Polyscan.Proofs.Registration.Accounting
import Polyscan.Proofs.Registration.Alone
import Polyscan.Proofs.Registration.Attempt
import Polyscan.Proofs.Registration.Containment
import Polyscan.Proofs.Registration.History
import Polyscan.Proofs.Registration.Interleaving
import Polyscan.Proofs.Registration.Namesakes
import Polyscan.Proofs.Registration.Schedule
import Polyscan.Proofs.Registration.Wiring
import Polyscan.Proofs.Results
import Polyscan.Proofs.Results.Tally
import Polyscan.Proofs.Revalidation
import Polyscan.Proofs.Run.Acceptance
import Polyscan.Proofs.Run.Events
import Polyscan.Proofs.Run.Interruption
import Polyscan.Proofs.Run.Isolation
import Polyscan.Proofs.Run.Options
import Polyscan.Proofs.Run.Outcome
import Polyscan.Proofs.Run.Scope
import Polyscan.Proofs.Run.Script
import Polyscan.Proofs.Run.Soundness
import Polyscan.Proofs.Run.Starting
import Polyscan.Proofs.Run.Sweep
import Polyscan.Proofs.Run.Transcript
import Polyscan.Proofs.Scan
import Polyscan.Proofs.Scan.Spans
import Polyscan.Proofs.Scan.Trailing
import Polyscan.Proofs.Selection
import Polyscan.Proofs.Selection.Calling
import Polyscan.Proofs.Selection.Partition
import Polyscan.Proofs.Selection.Union
import Polyscan.Proofs.Service
import Polyscan.Proofs.Service.Asking
import Polyscan.Proofs.Service.EventLoop
import Polyscan.Proofs.Service.Foretelling
import Polyscan.Proofs.Service.Report
import Polyscan.Proofs.Service.Startup
import Polyscan.Proofs.Service.Handler
import Polyscan.Proofs.Severity
import Polyscan.Proofs.Severity.Spelling
import Polyscan.Proofs.Sharing.Interleaving
import Polyscan.Proofs.Sharing.Stage
import Polyscan.Proofs.Spelling
import Polyscan.Proofs.StartPoint
import Polyscan.Proofs.StartPoint.Grammar
import Polyscan.Proofs.StartPoint.RoundTrip
import Polyscan.Proofs.Subscription.History
import Polyscan.Proofs.Subscription.Ledger
import Polyscan.Proofs.Subscription.Reentrancy
import Polyscan.Proofs.Text.Case
import Polyscan.Proofs.Text.Line
import Polyscan.Proofs.Text.Offset
import Polyscan.Proofs.Text.Points
import Polyscan.Proofs.Text.Position
import Polyscan.Proofs.Text.Row
import Polyscan.Proofs.Turns
import Polyscan.Proofs.Work
import Polyscan.Proofs.Workspace
import Polyscan.Proofs.Workspace.Default
import Polyscan.Proofs.Workspace.Inputs
import Polyscan.Proofs.Workspace.Listing
import Polyscan.Proofs.Workspace.Root
import Polyscan.Proofs.Workspace.Walk
import Polyscan.Results
import Polyscan.Rule.Basic
import Polyscan.Rule.Description
import Polyscan.Scan
import Polyscan.Schema.Basic
import Polyscan.Schema.Number
import Polyscan.Selection
import Polyscan.Service.Answer
import Polyscan.Service.Basic
import Polyscan.Service.EventLoop
import Polyscan.Service.Http
import Polyscan.Service.Request
import Polyscan.Service.Startup
import Polyscan.Settings.Basic
import Polyscan.Settings.Dotenv
import Polyscan.Severity
import Polyscan.StartPoint
import Polyscan.Text.Basic
import Polyscan.Text.Case
import Polyscan.Text.Class
import Polyscan.Text.Line
import Polyscan.Text.Property.CaseMap
import Polyscan.Text.Property.Cased
import Polyscan.Text.Property.Identifier
import Polyscan.Text.Property.Letter
import Polyscan.Text.Property.Numeral
import Polyscan.Text.Property.Printable
import Polyscan.Text.Quoted
import Polyscan.Text.Utf8
import Polyscan.Work.Basic
import Polyscan.Work.Gather
import Polyscan.Work.Once
import Polyscan.Work.Task
import Polyscan.Workspace
