import PhpAudit.ClassName
import PhpAudit.Cli.Command
import PhpAudit.Cli.Config
import PhpAudit.Cli.ConfigText
import PhpAudit.Cli.Program
import PhpAudit.Cli.Settings
import PhpAudit.Cli.Words
import PhpAudit.Files.Exclusion
import PhpAudit.Files.Glob
import PhpAudit.Files.Path
import PhpAudit.Files.Tree
import PhpAudit.Files.Walk
import PhpAudit.Finding
import PhpAudit.Hierarchy
import PhpAudit.Json.Pretty
import PhpAudit.Json.Value
import PhpAudit.Main
import PhpAudit.Namespace
import PhpAudit.Proofs.Cli.Settings
import PhpAudit.Proofs.Comment.Arena
import PhpAudit.Proofs.Comment.Binding
import PhpAudit.Proofs.Comment.ClassOf
import PhpAudit.Proofs.Comment.Clear
import PhpAudit.Proofs.Comment.Findings
import PhpAudit.Proofs.Comment.FullName
import PhpAudit.Proofs.Comment.Identifier
import PhpAudit.Proofs.Comment.Insertion
import PhpAudit.Proofs.Comment.Reads
import PhpAudit.Proofs.Comment.Region
import PhpAudit.Proofs.Comment.Source
import PhpAudit.Proofs.Comment.Taint
import PhpAudit.Proofs.Comment.Twin
import PhpAudit.Proofs.Dot.Drawing
import PhpAudit.Proofs.Dot.Reader
import PhpAudit.Proofs.Files.Descent
import PhpAudit.Proofs.Files.Glob
import PhpAudit.Proofs.Files.GlobMeaning
import PhpAudit.Proofs.Files.Ignore
import PhpAudit.Proofs.Files.LevelOrder
import PhpAudit.Proofs.Files.Location
import PhpAudit.Proofs.Files.Placement
import PhpAudit.Proofs.Files.Reach
import PhpAudit.Proofs.Hierarchy.Ancestors
import PhpAudit.Proofs.Hierarchy.Appending
import PhpAudit.Proofs.Hierarchy.Declarations
import PhpAudit.Proofs.Hierarchy.Growth
import PhpAudit.Proofs.Hierarchy.Inherited
import PhpAudit.Proofs.Hierarchy.Lookup
import PhpAudit.Proofs.Hierarchy.Method
import PhpAudit.Proofs.Hierarchy.Reachability
import PhpAudit.Proofs.Hierarchy.References
import PhpAudit.Proofs.Hierarchy.Spelling
import PhpAudit.Proofs.Hierarchy.Subclass
import PhpAudit.Proofs.Json.Grammar
import PhpAudit.Proofs.Json.Reader
import PhpAudit.Proofs.Namespace.Aliases
import PhpAudit.Proofs.Namespace.Imports
import PhpAudit.Proofs.Namespace.Innermost
import PhpAudit.Proofs.Namespace.Region
import PhpAudit.Proofs.Query.Binding
import PhpAudit.Proofs.Query.Flow
import PhpAudit.Proofs.Query.Growth
import PhpAudit.Proofs.Query.HopLimit
import PhpAudit.Proofs.Query.Names
import PhpAudit.Proofs.Query.Parent
import PhpAudit.Proofs.Query.Provenance
import PhpAudit.Proofs.Query.Steps
import PhpAudit.Proofs.Query.Strict
import PhpAudit.Proofs.Query.TaintCover
import PhpAudit.Proofs.Query.TaintSound
import PhpAudit.Proofs.Report.RoundTrip
import PhpAudit.Proofs.Report.Sarif
import PhpAudit.Proofs.Rule.Strict
import PhpAudit.Proofs.Rule.Suppression
import PhpAudit.Proofs.Rule.Words
import PhpAudit.Proofs.Scan.Accounting
import PhpAudit.Proofs.Scan.Evaluation
import PhpAudit.Proofs.Scan.FileOrder
import PhpAudit.Proofs.Scan.Growth
import PhpAudit.Proofs.Scan.Independence
import PhpAudit.Proofs.Scan.Isolation
import PhpAudit.Proofs.Scan.Marker
import PhpAudit.Proofs.Scan.Visits
import PhpAudit.Proofs.Text.LineAround
import PhpAudit.Proofs.Text.Slice
import PhpAudit.Proofs.Tree.Appending
import PhpAudit.Proofs.Tree.Arena
import PhpAudit.Proofs.Tree.Complete
import PhpAudit.Proofs.Tree.Iterators
import PhpAudit.Proofs.Tree.Lowering
import PhpAudit.Proofs.Tree.Nesting
import PhpAudit.Proofs.Tree.Order
import PhpAudit.Proofs.Tree.Preorder
import PhpAudit.Proofs.Tree.Walk
import PhpAudit.Query.Binding
import PhpAudit.Query.Call
import PhpAudit.Query.ClassOf
import PhpAudit.Query.Context
import PhpAudit.Query.Parameter
import PhpAudit.Query.Request
import PhpAudit.Query.Taint
import PhpAudit.Report.Document
import PhpAudit.Report.Format
import PhpAudit.Report.Sarif
import PhpAudit.Report.Summary
import PhpAudit.Rule.Basic
import PhpAudit.Rule.Builtin
import PhpAudit.Rule.Sensitive
import PhpAudit.Rule.Sink
import PhpAudit.Scan.Load
import PhpAudit.Scan.Metrics
import PhpAudit.Scan.Run
import PhpAudit.Severity
import PhpAudit.Span
import PhpAudit.Text.Ascii
import PhpAudit.Text.Blank
import PhpAudit.Text.Case
import PhpAudit.Text.CaseTable
import PhpAudit.Text.Lines
import PhpAudit.Tree.Export
import PhpAudit.Tree.Kind
import PhpAudit.Tree.Naming
import PhpAudit.Tree.Node
import PhpAudit.Tree.Outline
import PhpAudit.Tree.OutlineText
import PhpAudit.Tree.SourceFile
import PhpAudit.Word
