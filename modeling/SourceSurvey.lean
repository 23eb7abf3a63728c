import SourceSurvey.Main
import SourceSurvey.Proofs.Report.Accumulation
import SourceSurvey.Proofs.Report.HtmlLossless
import SourceSurvey.Proofs.Report.LatexLossless
import SourceSurvey.Proofs.Report.PlainLossless
import SourceSurvey.Proofs.Survey.Accounting
import SourceSurvey.Proofs.Survey.Deletion
import SourceSurvey.Proofs.Survey.Language
import SourceSurvey.Proofs.Survey.Tabulation
import SourceSurvey.Proofs.Tools.Transcript
import SourceSurvey.Proofs.Glob.Slash
import SourceSurvey.Proofs.Text.Utf8
import SourceSurvey.Proofs.Ignore.Anchoring
import SourceSurvey.Proofs.CommandLine.Written
import SourceSurvey.Proofs.ShownDirectory
import SourceSurvey.Proofs.FileSystem.Limits
import SourceSurvey.Proofs.Survey.Spelling
import SourceSurvey.Proofs.Lines
import SourceSurvey.Proofs.Report.Totals
import SourceSurvey.Proofs.Ancestors
import SourceSurvey.Proofs.Config.Discovery
import SourceSurvey.Proofs.Category.Extension
import SourceSurvey.Proofs.FileLines
import SourceSurvey.Proofs.Text.Order
import SourceSurvey.Proofs.Category.Overlay
import SourceSurvey.Proofs.Report.Layout
import SourceSurvey.Proofs.Ignore.Gathering
import SourceSurvey.Proofs.Tools.Request
import SourceSurvey.Proofs.PathText
import SourceSurvey.Proofs.Survey.Locations
import SourceSurvey.Proofs.Ignore.Names
import SourceSurvey.Proofs.Report.Sum
import SourceSurvey.Proofs.Survey.Composition
import SourceSurvey.Proofs.What.SameSets
import SourceSurvey.Proofs.What.Failures
import SourceSurvey.Proofs.FileSystem.Destination
import SourceSurvey.Proofs.Config.RealAncestors
import SourceSurvey.Proofs.Config.Schema
import SourceSurvey.Proofs.Toml.DistinctKeys
import SourceSurvey.Proofs.Config.Conformance
