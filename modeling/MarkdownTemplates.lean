import MarkdownTemplates.Directive.Record
import MarkdownTemplates.Main
import MarkdownTemplates.Proofs.Graph.Cycles
import MarkdownTemplates.Proofs.Template.Expansion
import MarkdownTemplates.Proofs.Json.RoundTrip
import MarkdownTemplates.Proofs.Snapshot.Derivation
import MarkdownTemplates.Proofs.Snapshot.Storage
import MarkdownTemplates.Proofs.FileTree.Reach
import MarkdownTemplates.Proofs.FileTree.Replace
import MarkdownTemplates.Proofs.Project.Saving
import MarkdownTemplates.Proofs.Project.Refreshing
import MarkdownTemplates.Proofs.Project.Scanning
import MarkdownTemplates.Proofs.Project.Run
import MarkdownTemplates.Proofs.Project.Invariant
import MarkdownTemplates.Proofs.Project.Soundness
import MarkdownTemplates.Proofs.Project.Incremental
import MarkdownTemplates.Proofs.Project.Freshness
import MarkdownTemplates.Proofs.Project.Consistency
import MarkdownTemplates.Proofs.Template.Acyclic
import MarkdownTemplates.Proofs.Template.Remainder
import MarkdownTemplates.Proofs.Analysis
import MarkdownTemplates.Proofs.Lint.Clean
import MarkdownTemplates.Proofs.Lint.Expanding
import MarkdownTemplates.Proofs.Lint.Scheduling
import MarkdownTemplates.Proofs.Template.StaticCheck
import MarkdownTemplates.Proofs.Text
import MarkdownTemplates.Proofs.Attributes
import MarkdownTemplates.Proofs.Directive.Head
import MarkdownTemplates.Proofs.Directive.Line
import MarkdownTemplates.Proofs.Directive.Quoting
import MarkdownTemplates.Proofs.Document.Scan
import MarkdownTemplates.Proofs.Document.Scanned
import MarkdownTemplates.Proofs.Document.Writing
import MarkdownTemplates.Proofs.Document.Directives
import MarkdownTemplates.Proofs.Document.DirectiveForest
import MarkdownTemplates.Proofs.Document.Rewriting
import MarkdownTemplates.Proofs.Graph.Dependents
import MarkdownTemplates.Proofs.Graph.NamedCycles
import MarkdownTemplates.Proofs.Closure.Imports
import MarkdownTemplates.Proofs.Closure.Collection
import MarkdownTemplates.Proofs.Closure.Following
import MarkdownTemplates.Proofs.Closure.StartPath
import MarkdownTemplates.Proofs.Snapshot.Templates
import MarkdownTemplates.Proofs.Snapshot.Winners
import MarkdownTemplates.Proofs.Snapshot.Description
import MarkdownTemplates.Proofs.CommandLine.CollectedFiles
import MarkdownTemplates.Proofs.CommandLine.Completeness
import MarkdownTemplates.Proofs.CommandLine.RecordedDefinitions
import MarkdownTemplates.Proofs.Project.Reporting
import MarkdownTemplates.Proofs.Project.Tracking
import MarkdownTemplates.Proofs.Project.Targets
import MarkdownTemplates.Proofs.Markdown.Plain
import MarkdownTemplates.Proofs.Document.OwnLines
import MarkdownTemplates.Proofs.Document.CodeFence
import MarkdownTemplates.Proofs.Path.Lexical
import MarkdownTemplates.Proofs.Path.Inside
import MarkdownTemplates.Proofs.Resolver.Sandbox
import MarkdownTemplates.Proofs.Position
import MarkdownTemplates.Proofs.Document.Placing
import MarkdownTemplates.Proofs.Document.Layout
import MarkdownTemplates.Proofs.Document.Cutting
import MarkdownTemplates.Proofs.Document.InlinePlaces
import MarkdownTemplates.Proofs.Document.OutsideCode
import MarkdownTemplates.Proofs.Directive.Reading
import MarkdownTemplates.Proofs.Document.Splitting
import MarkdownTemplates.Proofs.Document.ClosingFences
import MarkdownTemplates.Proofs.Lint.Findings
import MarkdownTemplates.Proofs.Lint.Unloadable
import MarkdownTemplates.Proofs.Discovery
import MarkdownTemplates.Proofs.Discovery.Listing
import MarkdownTemplates.Proofs.Discovery.Cycles
import MarkdownTemplates.Proofs.CommandLine.LintedFiles
import MarkdownTemplates.Proofs.Template.Judgement
import MarkdownTemplates.Proofs.Path.Normal
import MarkdownTemplates.Proofs.Path.Climbing
import MarkdownTemplates.Proofs.Path.Parent
import MarkdownTemplates.Proofs.Project.Interleaving
import MarkdownTemplates.Proofs.Resolver.Memo
import MarkdownTemplates.Proofs.Project.Differences
import MarkdownTemplates.Proofs.Project.Failing
import MarkdownTemplates.Proofs.Project.Unreadable
import MarkdownTemplates.Proofs.Discovery.Keys
import MarkdownTemplates.Proofs.Resolver.Invalidation
import MarkdownTemplates.Proofs.Config
