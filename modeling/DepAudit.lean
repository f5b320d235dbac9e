import DepAudit.Analysis
import DepAudit.Json.Printer
import DepAudit.RunLog
import DepAudit.Settings.Load
import DepAudit.Text.Percent
import DepAudit.Proofs.Graph.Edges
import DepAudit.Proofs.Graph.Search
import DepAudit.Proofs.Graph.Completion
import DepAudit.Proofs.Graph.Cycles
import DepAudit.Proofs.Graph.Depths
import DepAudit.Proofs.Graph.Acyclic
import DepAudit.Proofs.StableSort
import DepAudit.Proofs.Analysis.Accounting
import DepAudit.Proofs.Analysis.Isolation
import DepAudit.Proofs.ProjectFile.RoundTrip
import DepAudit.Proofs.Analysis.PackageText
import DepAudit.Proofs.Discovery
import DepAudit.Proofs.Analysis.Naming
import DepAudit.Proofs.LockFile
import DepAudit.Proofs.ProjectFile.TargetGraph
import DepAudit.Proofs.ProjectFile.Rewording
import DepAudit.Proofs.PackageManifest
import DepAudit.Proofs.Version.Minimum
import DepAudit.Proofs.Analysis.IssueIds
import DepAudit.Proofs.Settings.Load
import DepAudit.Proofs.Version.Bounds
import DepAudit.Proofs.Version.Rendering
import DepAudit.Proofs.Version.Misreading
import DepAudit.Proofs.Graph.Layers
import DepAudit.Proofs.Repository
import DepAudit.Proofs.Graph.Recursion
import DepAudit.Proofs.Graph.ClosingEdges
import DepAudit.Proofs.Graph.Roots
import DepAudit.Proofs.Graph.Bottlenecks
import DepAudit.Proofs.Conflict
import DepAudit.Proofs.RequirementCheck.Names
import DepAudit.Proofs.Ranking.Raise
import DepAudit.Proofs.Ranking.Pinned
import DepAudit.Proofs.Ranking.Parts
import DepAudit.Proofs.ProjectFile.Groups
import DepAudit.Proofs.ProjectFile.Headers
import DepAudit.Proofs.ProjectFile.Fields
import DepAudit.Proofs.Imports.Lines
import DepAudit.Proofs.Imports.Merging
import DepAudit.Proofs.LockFile.Counts
import DepAudit.Proofs.Settings.Overlay
import DepAudit.Proofs.Settings.Places
import DepAudit.Proofs.Json.Records
import DepAudit.Proofs.Graph.Loop
