import ContentCatalog.Text.Word
import ContentCatalog.Text.Glob
import ContentCatalog.Number.Double
import ContentCatalog.Number.Shortest
import ContentCatalog.Number.Reading
import ContentCatalog.Calendar.Moment
import ContentCatalog.Hash.Sha256
import ContentCatalog.Value.Display
import ContentCatalog.Json.Reader
import ContentCatalog.Json.Calls
import ContentCatalog.Json.Printer
import ContentCatalog.Yaml.Document
import ContentCatalog.Path.Route
import ContentCatalog.Source.Component
import ContentCatalog.Source.Markdown
import ContentCatalog.Exclusion
import ContentCatalog.Disk.Walk
import ContentCatalog.Disk.Change
import ContentCatalog.Settings
import ContentCatalog.Catalog.Defect
import ContentCatalog.Catalog.Reference
import ContentCatalog.Scan
import ContentCatalog.Output
import ContentCatalog.CommandLine.Run
import ContentCatalog.Main
import ContentCatalog.Proofs.FenceLines
import ContentCatalog.Proofs.BlockPieces
import ContentCatalog.Proofs.BreakStyles
import ContentCatalog.Proofs.PathSegments
import ContentCatalog.Proofs.PageSuffixes
import ContentCatalog.Proofs.RouteCollisions
import ContentCatalog.Proofs.DeclaredNames
import ContentCatalog.Proofs.UsedTags
import ContentCatalog.Proofs.InterfaceMembers
import ContentCatalog.Proofs.WalkedFiles
import ContentCatalog.Proofs.FileNames
import ContentCatalog.Proofs.WalkOrder
import ContentCatalog.Proofs.PrunedWalk
import ContentCatalog.Proofs.ScanStages
import ContentCatalog.Proofs.ScannedItems
import ContentCatalog.Proofs.ManifestFiles
import ContentCatalog.Proofs.SoundBuild
import ContentCatalog.Proofs.SourceFields
import ContentCatalog.Proofs.SoundScan
import ContentCatalog.Proofs.DecodePolicy
import ContentCatalog.Proofs.FileEntries
import ContentCatalog.Proofs.SameEntries
import ContentCatalog.Proofs.NumberReading
import ContentCatalog.Proofs.PropDefaults
import ContentCatalog.Proofs.ReportedScan
import ContentCatalog.Proofs.Rounding
import ContentCatalog.Proofs.ShortestDecimal
import ContentCatalog.Proofs.DecimalDigits
import ContentCatalog.Proofs.PrintedNumbers
import ContentCatalog.Proofs.Literals
import ContentCatalog.Proofs.DestructuredEntries
import ContentCatalog.Proofs.EarlierDeclarations
import ContentCatalog.Proofs.LongDefaults
import ContentCatalog.Proofs.ComponentProps
import ContentCatalog.Proofs.ProperDoubles
import ContentCatalog.Proofs.PrintedScalars
import ContentCatalog.Proofs.PrintedJson
import ContentCatalog.Proofs.KeyNames
import ContentCatalog.Proofs.JsonImage
import ContentCatalog.Proofs.NestedValues
import ContentCatalog.Proofs.ReadDocuments
import ContentCatalog.Proofs.ReportedDefects
import ContentCatalog.Proofs.BuildRecords
import ContentCatalog.Proofs.WrittenValues
import ContentCatalog.Proofs.PersistedBuild
import ContentCatalog.Proofs.TreeFiles
import ContentCatalog.Proofs.MissingComponents
import ContentCatalog.Proofs.KeptFiles
import ContentCatalog.Proofs.WrittenResults
import ContentCatalog.Proofs.SuccessiveResults
import ContentCatalog.Proofs.SharedKeys
import ContentCatalog.Proofs.ValidatedProject
import ContentCatalog.Proofs.DiskNames
import ContentCatalog.Proofs.RepeatedScan
import ContentCatalog.Proofs.BuildingSteps
import ContentCatalog.Proofs.MergedMappings
import ContentCatalog.Proofs.BuiltObjects
import ContentCatalog.Proofs.SourceKeys
import ContentCatalog.Proofs.StringKeys
import ContentCatalog.Proofs.FrontmatterKeys
import ContentCatalog.Proofs.LoadedValues
import ContentCatalog.Proofs.SpelledKeys
import ContentCatalog.Proofs.KeptEntries
import ContentCatalog.Proofs.ListedSets
import ContentCatalog.Proofs.SetOrder
