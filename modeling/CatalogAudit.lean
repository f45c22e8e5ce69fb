import CatalogAudit.Main
import CatalogAudit.Proofs.Usage.DepthMap
import CatalogAudit.Proofs.Usage.ClosedForm
import CatalogAudit.Proofs.Catalog.Naming
import CatalogAudit.Proofs.Json.Strings
import CatalogAudit.Proofs.Usage.AnyCache
import CatalogAudit.Proofs.Json.Readers
import CatalogAudit.Proofs.FileTree.WriteRead
import CatalogAudit.Proofs.Usage.SaveLoad
import CatalogAudit.Proofs.Usage.Records
import CatalogAudit.Proofs.Usage.Transparency
import CatalogAudit.Proofs.Usage.Staircase
import CatalogAudit.Proofs.FileTree.Continued
import CatalogAudit.Proofs.FileTree.Beside
import CatalogAudit.Proofs.FileTree.Writes
import CatalogAudit.Proofs.Ordered.Lookup
import CatalogAudit.Proofs.Text.ByteOrder
import CatalogAudit.Proofs.Usage.CanonicalFile
import CatalogAudit.Proofs.Usage.CacheEffect
import CatalogAudit.Proofs.Usage.SecondRun
import CatalogAudit.Proofs.FileTree.Frame
import CatalogAudit.Proofs.FileTree.Listing
import CatalogAudit.Proofs.Source.Scan
import CatalogAudit.Proofs.Audit.UnusedKeys
import CatalogAudit.Proofs.FileTree.Changes
import CatalogAudit.Proofs.Audit.Unread
import CatalogAudit.Proofs.Audit.Repeat
import CatalogAudit.Proofs.Audit.OtherReport
import CatalogAudit.Proofs.Usage.FileOrder
import CatalogAudit.Proofs.Report.Results
import CatalogAudit.Proofs.Audit.Agreement
import CatalogAudit.Proofs.Audit.Confinement
import CatalogAudit.Proofs.Usage.Ignoring
import CatalogAudit.Proofs.Usage.Matched
import CatalogAudit.Proofs.Audit.Finish
import CatalogAudit.Proofs.Audit.IdleCache
import CatalogAudit.Proofs.FileTree.Above
import CatalogAudit.Proofs.FileTree.Moved
import CatalogAudit.Proofs.Audit.AbsolutePaths
import CatalogAudit.Proofs.Audit.WorkingDirectory
import CatalogAudit.Proofs.Audit.FilesRead
import CatalogAudit.Proofs.Audit.InsideProject
import CatalogAudit.Proofs.Catalog.NodePaths
import CatalogAudit.Proofs.Catalog.Traversal
import CatalogAudit.Proofs.Usage.ReportedNodes
import CatalogAudit.Proofs.Source.Coverage
import CatalogAudit.Proofs.FileTree.Asked
import CatalogAudit.Proofs.Audit.SideBySide
import CatalogAudit.Proofs.Audit.ExtraFile
import CatalogAudit.Proofs.Audit.StarterSettings
import CatalogAudit.Proofs.Source.Content
import CatalogAudit.Proofs.Locale.Messages
import CatalogAudit.Proofs.Locale.Files
import CatalogAudit.Proofs.Locale.Gaps
import CatalogAudit.Proofs.Source.Spelling
import CatalogAudit.Proofs.Audit.RootSpelling
import CatalogAudit.Proofs.Report.UnusedPart
import CatalogAudit.Proofs.Yaml.Literal
import CatalogAudit.Proofs.Yaml.Quotes
import CatalogAudit.Proofs.Yaml.Scalars
import CatalogAudit.Proofs.Yaml.Blocks
import CatalogAudit.Proofs.Report.Texts
import CatalogAudit.Proofs.Audit.ErrorLine
import CatalogAudit.Proofs.Json.Layout
import CatalogAudit.Proofs.Json.Skipped
import CatalogAudit.Proofs.Json.Spelled
import CatalogAudit.Proofs.Json.Records
import CatalogAudit.Proofs.Json.Printed
import CatalogAudit.Proofs.Settings.Written
import CatalogAudit.Proofs.Usage.RecordLaws
import CatalogAudit.Proofs.Usage.DepthCap
import CatalogAudit.Proofs.Decimal.Numerals
import CatalogAudit.Proofs.Text.Words
import CatalogAudit.Proofs.Usage.DepthText
import CatalogAudit.Proofs.FileTree.Upward
import CatalogAudit.Proofs.Settings.Discovery
