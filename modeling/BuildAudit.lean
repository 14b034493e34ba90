import BuildAudit.Resolution
import BuildAudit.ArtifactSymbols
import BuildAudit.LoaderReport
import BuildAudit.Store
import BuildAudit.Query.Linkage
import BuildAudit.Query.Duplicates
import BuildAudit.Query.Closure
import BuildAudit.Import.Contents
import BuildAudit.Extraction
import BuildAudit.Graph.Named
import BuildAudit.Damage
import BuildAudit.Mangled
import BuildAudit.Main
import BuildAudit.Proofs.Integrity
import BuildAudit.Proofs.Knowledge
import BuildAudit.Proofs.Observation
import BuildAudit.Proofs.Recording
import BuildAudit.Proofs.FinishOrder
import BuildAudit.Proofs.ResolvedPaths
import BuildAudit.Proofs.DependencyPhase
import BuildAudit.Proofs.SymbolPhase
import BuildAudit.Proofs.Calls
import BuildAudit.Proofs.Imports
import BuildAudit.Proofs.Staleness
import BuildAudit.Proofs.Reruns
import BuildAudit.Proofs.Quoting
import BuildAudit.Proofs.Reachability
import BuildAudit.Proofs.LinkAudits
import BuildAudit.Proofs.Replay
import BuildAudit.Proofs.DependencyOutcome
import BuildAudit.Proofs.SymbolOutcome
import BuildAudit.Proofs.Renaming
import BuildAudit.Proofs.SymbolOrder
import BuildAudit.Proofs.Attained
import BuildAudit.Proofs.History
import BuildAudit.Proofs.Generators
import BuildAudit.Proofs.CleanSymbols
import BuildAudit.Proofs.Mentions
import BuildAudit.Proofs.Misnaming
import BuildAudit.Proofs.ImportOutcome
import BuildAudit.Proofs.Rehearsals
import BuildAudit.Proofs.SurfacingErrors
import BuildAudit.Proofs.Interleaving
import BuildAudit.Proofs.SplitLogs
import BuildAudit.Proofs.InputForms
import BuildAudit.Proofs.BoundedWork
import BuildAudit.Proofs.Paths
import BuildAudit.Proofs.OsStrings
import BuildAudit.Proofs.Walking
import BuildAudit.Proofs.InputTokens
import BuildAudit.Proofs.FileIdentity
import BuildAudit.Proofs.ArgumentItems
import BuildAudit.Proofs.ScannerAgreement
import BuildAudit.Proofs.ResolutionOutcome
import BuildAudit.Proofs.AbsoluteNames
import BuildAudit.Proofs.QuotedStrings
import BuildAudit.Proofs.WrittenValues
import BuildAudit.Proofs.WrittenTables
import BuildAudit.Proofs.SavedConfig
import BuildAudit.Proofs.LibraryLookup
import BuildAudit.Proofs.LibraryDirectories
import BuildAudit.Proofs.NameOrder
import BuildAudit.Proofs.UnresolvedSymbols
import BuildAudit.Proofs.ExactTotals
import BuildAudit.Proofs.CountedReferences
import BuildAudit.Proofs.DuplicateSymbols
import BuildAudit.Proofs.FailedUpserts
import BuildAudit.Proofs.DuplicateTotals
import BuildAudit.Proofs.DumpProtocol
import BuildAudit.Proofs.Fields
import BuildAudit.Proofs.LineGrammar
import BuildAudit.Proofs.CombinedListings
import BuildAudit.Proofs.BreadthFirst
import BuildAudit.Proofs.LibraryUse
import BuildAudit.Proofs.PrintedInvocations
import BuildAudit.Proofs.NameKinds
import BuildAudit.Proofs.NearestSettings
import BuildAudit.Proofs.LoaderComparison
import BuildAudit.Proofs.MemberHeadings
