import SchedAnalyzer.User.CommandLine
import SchedAnalyzer.User.CollectedArguments
import SchedAnalyzer.User.NumericOptions
import SchedAnalyzer.User.TaskFilters
import SchedAnalyzer.User.EventOptions
import SchedAnalyzer.User.KallsymsOrder
import SchedAnalyzer.User.KallsymsSearch
import SchedAnalyzer.User.KallsymsBounds
import SchedAnalyzer.User.KallsymsLines
import SchedAnalyzer.User.KallsymsEntries
import SchedAnalyzer.User.KallsymsNames
import SchedAnalyzer.User.MainRun
import SchedAnalyzer.User.MainJoins
import SchedAnalyzer.Trace.TrackSlices
import SchedAnalyzer.Session.RqPelt
import SchedAnalyzer.Session.SlotHistory
import SchedAnalyzer.Session.LbSlices
import SchedAnalyzer.Session.LbMap
import SchedAnalyzer.Session.SdStats
import SchedAnalyzer.Session.TaskReset
import SchedAnalyzer.Session.IdleState
import SchedAnalyzer.Session.InstantSlices
import SchedAnalyzer.Session.Gating
import SchedAnalyzer.Post.SaTrack
import SchedAnalyzer.Post.TaskTracks
import SchedAnalyzer.Post.RunningTracks
import SchedAnalyzer.Post.Resample
import SchedAnalyzer.Post.Running
import SchedAnalyzer.Post.Residency
import SchedAnalyzer.Post.Idle
import SchedAnalyzer.Post.IdleChart
import SchedAnalyzer.Post.Freq
import SchedAnalyzer.Post.TaskRows
import SchedAnalyzer.Post.StatesSummary
import SchedAnalyzer.Post.StatesCharts
import SchedAnalyzer.Pipeline.CounterPlots
import SchedAnalyzer.User.KallsymsFile
import SchedAnalyzer.Pipeline.IpiNames
import SchedAnalyzer.Post.FreqTaskBars
import SchedAnalyzer.Foundation.KeyedPairs
import SchedAnalyzer.Post.TrackPlots
import SchedAnalyzer.Session.LbExits
import SchedAnalyzer.Session.RunningTasks
import SchedAnalyzer.Post.Images
import SchedAnalyzer.Post.Reports
import SchedAnalyzer.User.TraceConfig
