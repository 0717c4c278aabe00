import SongPath.Alignment
import SongPath.Binary64
import SongPath.Binary64.Stepwise
import SongPath.Cache
import SongPath.CommandLine
import SongPath.Defect
import SongPath.Failure
import SongPath.Invocation
import SongPath.Json
import SongPath.Json.Metadata
import SongPath.Json.Number
import SongPath.Json.Printer
import SongPath.Json.Reader
import SongPath.Json.Record
import SongPath.Lexeme
import SongPath.Main
import SongPath.Match
import SongPath.Metadata
import SongPath.Mismatch
import SongPath.Numeral
import SongPath.Path
import SongPath.Pattern
import SongPath.PatternSet
import SongPath.Preset
import SongPath.Program
import SongPath.Program.Execution
import SongPath.Proofs.Compilation
import SongPath.Proofs.ShortestCut
import SongPath.Proofs.Trials
import SongPath.Proofs.Trimming
import SongPath.Regex
import SongPath.Regex.OfPattern
import SongPath.Report
import SongPath.Resolution
import SongPath.Segment
import SongPath.Segment.Capture
import SongPath.Segment.Grammar
import SongPath.Settings
import SongPath.Settings.Environment
import SongPath.Settings.File
import SongPath.Settings.Gathering
import SongPath.Settings.KeyPath
import SongPath.Settings.Toml
import SongPath.Settings.Toml.Line
import SongPath.Settings.Toml.Quoted
import SongPath.Settings.Toml.Word
import SongPath.Settings.Value
import SongPath.Text
import SongPath.Text.Blank
import SongPath.Token
import SongPath.Proofs.FolderAlignment
import SongPath.Proofs.FirstFailure
import SongPath.Proofs.DocumentOrder
import SongPath.Proofs.CanonicalLexemes
import SongPath.Proofs.NormalForm
import SongPath.Proofs.Filling
import SongPath.Proofs.Substitution
import SongPath.Proofs.LeftmostFirst
import SongPath.Proofs.Tokenization
import SongPath.Proofs.PartText
import SongPath.Proofs.SpecificationGrammar
import SongPath.Proofs.CanonicalForm
import SongPath.Proofs.IgnoredFolders
import SongPath.Proofs.CacheHistory
import SongPath.Proofs.StarFolders
import SongPath.Proofs.SetConstruction
import SongPath.Proofs.OrderedFallback
import SongPath.Proofs.JsonText
import SongPath.Proofs.ReportReading
import SongPath.Proofs.ExpressionText
import SongPath.Proofs.ExpressionGroups
import SongPath.Proofs.ExpressionSearch
import SongPath.Proofs.LooseCut
import SongPath.Proofs.NameSearch
import SongPath.Proofs.PatternSearch
import SongPath.Proofs.ExpressionAgreement
import SongPath.Proofs.PartDefects
import SongPath.Proofs.ReportedDefect
import SongPath.Proofs.CompiledPatterns
import SongPath.Proofs.ParseRuns
import SongPath.Proofs.CommandLines
import SongPath.Proofs.InputLines
import SongPath.Proofs.FolderWindows
import SongPath.Proofs.Separators
import SongPath.Proofs.MatchedDepths
import SongPath.Proofs.LeadingFolders
import SongPath.Proofs.UniqueReading
import SongPath.Proofs.Provenance
import SongPath.Proofs.TextReport
