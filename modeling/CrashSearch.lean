import CrashSearch.Callee.Basic
import CrashSearch.Callee.Inner
import CrashSearch.Callee.Live
import CrashSearch.Callee.Registry
import CrashSearch.Callee.Scope
import CrashSearch.Classes.CallGraph
import CrashSearch.Classes.Hierarchy
import CrashSearch.Command.Arguments
import CrashSearch.Command.Files
import CrashSearch.Command.Run
import CrashSearch.Decimal.Binary64
import CrashSearch.Decimal.Layout
import CrashSearch.Decimal.Shortest
import CrashSearch.Distance
import CrashSearch.Error
import CrashSearch.Execution
import CrashSearch.Fitness.Chains
import CrashSearch.Fitness.Crash
import CrashSearch.Fitness.Frame
import CrashSearch.Fitness.Goals
import CrashSearch.Fitness.Progress
import CrashSearch.Flow.Basic
import CrashSearch.Flow.Branch
import CrashSearch.Flow.Dot
import CrashSearch.Flow.Joined
import CrashSearch.Json.Basic
import CrashSearch.Json.Decode
import CrashSearch.Json.Number
import CrashSearch.Json.Printer
import CrashSearch.Json.Quoted
import CrashSearch.Json.Reader
import CrashSearch.Json.Token
import CrashSearch.Main
import CrashSearch.Model.Classes
import CrashSearch.Model.Execution
import CrashSearch.Model.Flow
import CrashSearch.Model.Scenario
import CrashSearch.Model.Trace
import CrashSearch.Ordered.Assoc
import CrashSearch.Ordered.Set
import CrashSearch.Program
import CrashSearch.Proofs.Aggregation
import CrashSearch.Proofs.Bands
import CrashSearch.Proofs.Builds
import CrashSearch.Proofs.CallChains
import CrashSearch.Proofs.CallEdges
import CrashSearch.Proofs.ClassGraphs
import CrashSearch.Proofs.ExactScale
import CrashSearch.Proofs.FloatScale
import CrashSearch.Proofs.InnerKeys
import CrashSearch.Proofs.Involved
import CrashSearch.Proofs.LawfulScale
import CrashSearch.Proofs.Lines
import CrashSearch.Proofs.Missing
import CrashSearch.Proofs.Nearest
import CrashSearch.Proofs.Reach
import CrashSearch.Proofs.Reproduction
import CrashSearch.Proofs.Requests
import CrashSearch.Proofs.BuildOrder
import CrashSearch.Proofs.Tracking
import CrashSearch.Proofs.Uses
import CrashSearch.Proofs.Walk
import CrashSearch.Scale
import CrashSearch.Session
import CrashSearch.Settings
import CrashSearch.Text.Blank
import CrashSearch.Text.Cut
import CrashSearch.Toml.Document
import CrashSearch.Toml.Item
import CrashSearch.Toml.Number
import CrashSearch.Toml.Text
import CrashSearch.Trace.Basic
import CrashSearch.Trace.Log
import CrashSearch.Trace.Similarity
import CrashSearch.Proofs.Failures
import CrashSearch.Proofs.TrackedFrames
import CrashSearch.Proofs.WrittenLogs
import CrashSearch.Fitness.Population
import CrashSearch.Proofs.FloatOrder
import CrashSearch.Proofs.Reports
import CrashSearch.Proofs.Schedules
import CrashSearch.Proofs.JoinedEdges
import CrashSearch.Proofs.Landing
import CrashSearch.Proofs.InnerCalls
import CrashSearch.Proofs.Rearranged
import CrashSearch.Proofs.Documents
import CrashSearch.Proofs.FrameRange
import CrashSearch.Proofs.ReturnPoints
import CrashSearch.Proofs.LogGrammar
import CrashSearch.Proofs.ExactAlignment
import CrashSearch.Proofs.CountedFrames
import CrashSearch.Proofs.LineOwners
import CrashSearch.Proofs.Loading
import CrashSearch.Proofs.SuperclassChains
import CrashSearch.Proofs.OwnMethod
import CrashSearch.Ordered.Distinct
import CrashSearch.Proofs.FlowEdges
import CrashSearch.Proofs.QuotedTexts
import CrashSearch.Proofs.DrawnTexts
import CrashSearch.Proofs.DrawnClusters
import CrashSearch.Proofs.ForeignCalls
import CrashSearch.Proofs.GraphChanges
import CrashSearch.Proofs.InnerWalk
import CrashSearch.Proofs.ChainHistories
