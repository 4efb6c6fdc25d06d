import CodeSurvey.Main
import CodeSurvey.Proofs.BlockBodies
import CodeSurvey.Proofs.BraceMatching
import CodeSurvey.Proofs.DisplayNames
import CodeSurvey.Proofs.DuplicateDetection
import CodeSurvey.Proofs.FingerprintCorrect
import CodeSurvey.Proofs.IdentifierSharing
import CodeSurvey.Proofs.ListLemmas
import CodeSurvey.Proofs.LowerCase
import CodeSurvey.Proofs.PathComponents
import CodeSurvey.Proofs.PatternLanguage
import CodeSurvey.Proofs.ProjectScan
import CodeSurvey.Proofs.SharingCorrect
import CodeSurvey.Proofs.TextOrder
import CodeSurvey.Proofs.WalkOrder
import CodeSurvey.Proofs.BlockNesting
import CodeSurvey.Proofs.FingerprintOrder
import CodeSurvey.Scan.Workers
import CodeSurvey.Proofs.Cancellation
import CodeSurvey.Proofs.RootIndependence
import CodeSurvey.Proofs.TreeLookup
import CodeSurvey.Proofs.RelationshipEdges
import CodeSurvey.Proofs.ReportNames
import CodeSurvey.Proofs.DuplicateLabels
import CodeSurvey.Scan.StreamWorkers
import CodeSurvey.Proofs.StreamProtocol
import CodeSurvey.Proofs.TreeAgreement
import CodeSurvey.Proofs.IgnoredDirectories
import CodeSurvey.Proofs.WalkContents
import CodeSurvey.Proofs.ProjectFiles
import CodeSurvey.Proofs.SourceFiles
import CodeSurvey.Proofs.ScanCounts
import CodeSurvey.Proofs.ProjectSummaries
import CodeSurvey.Proofs.LineBreaks
import CodeSurvey.Proofs.LineBreakPatterns
import CodeSurvey.Proofs.LineBreakMatches
import CodeSurvey.Proofs.LineBreakExtraction
import CodeSurvey.Proofs.ReferenceResolution
import CodeSurvey.Proofs.LowerParts
import CodeSurvey.Proofs.MentionedNames
import CodeSurvey.Proofs.EdgeWeights
import CodeSurvey.Proofs.WalkListing
import CodeSurvey.Proofs.TextBytes
import CodeSurvey.Proofs.BraceBalance
import CodeSurvey.Proofs.PatternSearch
import CodeSurvey.Proofs.HeaderParts
import CodeSurvey.Proofs.BlockShape
import CodeSurvey.Proofs.DeclaredNames
import CodeSurvey.Proofs.MethodLines
import CodeSurvey.Proofs.NormalForms
import CodeSurvey.Proofs.NormalPatterns
import CodeSurvey.Proofs.VisibleCharacters
import CodeSurvey.Proofs.ScopeResolution
import CodeSurvey.Proofs.ImportLines
import CodeSurvey.Proofs.TargetCalls
import CodeSurvey.Proofs.JsonTokens
import CodeSurvey.Proofs.JsonText
import CodeSurvey.Proofs.RecordFields
import CodeSurvey.Proofs.ReportRoundTrip
import CodeSurvey.Proofs.PartialSettings
import CodeSurvey.Proofs.CommandSettings
import CodeSurvey.Proofs.LowerForms
import CodeSurvey.Proofs.IgnoredNames
import CodeSurvey.Proofs.TechnologyLabels
import CodeSurvey.Proofs.MentionSegments
import CodeSurvey.Proofs.DigestSpelling
