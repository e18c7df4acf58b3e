import AnalysisServer.Main
import AnalysisServer.Proofs.System.Replay
import AnalysisServer.Proofs.Cache.Flight
import AnalysisServer.Proofs.System.Loads
import AnalysisServer.Proofs.System.Calm
import AnalysisServer.Proofs.Discovery.Calls
import AnalysisServer.Proofs.Discovery.Exclusions
import AnalysisServer.Proofs.System.Agreement
import AnalysisServer.Proofs.Deadline.Notices
import AnalysisServer.Proofs.Json.Results
import AnalysisServer.Proofs.Json.Requests
import AnalysisServer.Proofs.Channel.Exchanges
import AnalysisServer.Proofs.System.Closings
import AnalysisServer.Proofs.Session.Releases
import AnalysisServer.Proofs.Source.CodeLines
import AnalysisServer.Proofs.Source.Positions
import AnalysisServer.Proofs.Project.Invalidation
import AnalysisServer.Proofs.Project.Relocation
import AnalysisServer.Proofs.Session.FallbackPrograms
import AnalysisServer.Proofs.Session.SilencedLines
import AnalysisServer.Proofs.Session.SizeLimits
import AnalysisServer.Proofs.Session.Bundles
import AnalysisServer.Proofs.Cache.Operations
import AnalysisServer.Proofs.Source.Joining
import AnalysisServer.Proofs.Source.HeaderComments
import AnalysisServer.Proofs.Discovery.Dependencies
