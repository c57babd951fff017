import QuasiNewton.Logging.Registry
import QuasiNewton.Minimize
import QuasiNewton.Objective.Formulated
import QuasiNewton.Objective.Quadratic
import QuasiNewton.Playback
import QuasiNewton.Proofs.LineSearch.WolfeSearch
import QuasiNewton.Proofs.RankOne.Hereditary
import QuasiNewton.Proofs.RankOne.Termination
import QuasiNewton.Proofs.LineSearch.Rescaling
import QuasiNewton.Proofs.Run.SideBySide
import QuasiNewton.Proofs.RankOne.SideBySide
import QuasiNewton.Proofs.RankOne.Motion
import QuasiNewton.Proofs.Objective.CentralDifferences
import QuasiNewton.Proofs.RankOne.DifferencesRun
import QuasiNewton.Proofs.RankOne.Order
import QuasiNewton.Proofs.Run.Failure
import QuasiNewton.Proofs.RankOne.OrderedRun
import QuasiNewton.Proofs.Run.Recorded
import QuasiNewton.Proofs.Run.Calls
import QuasiNewton.Proofs.Run.Contract
import QuasiNewton.Proofs.Objective.Twins
import QuasiNewton.Proofs.Objective.Counting
import QuasiNewton.Proofs.RankOne.Square
import QuasiNewton.Proofs.RankOne.Requests
import QuasiNewton.Proofs.Run.Limits
import QuasiNewton.Proofs.Run.Timeless
import QuasiNewton.Proofs.RankOne.Twins
import QuasiNewton.Proofs.RankOne.Limits
import QuasiNewton.Proofs.Exact.Contraction
import QuasiNewton.Proofs.Exact.Extended
import QuasiNewton.Proofs.Exact.FiniteEntries
import QuasiNewton.Proofs.Objective.Checked
import QuasiNewton.Proofs.LineSearch.Represented
import QuasiNewton.Proofs.LineSearch.Contract
import QuasiNewton.Proofs.RankOne.Stopping
import QuasiNewton.Proofs.LineSearch.FullStep
import QuasiNewton.Proofs.RankOne.FullStep
import QuasiNewton.Proofs.LineSearch.Budget
import QuasiNewton.Proofs.RankOne.Budget
import QuasiNewton.Proofs.Objective.Families
import QuasiNewton.Proofs.RankOne.Families
import QuasiNewton.Proofs.LineSearch.Parabola
import QuasiNewton.Proofs.LineSearch.Window
import QuasiNewton.Proofs.Binary64.Order
import QuasiNewton.Proofs.RankOne.Guard
import QuasiNewton.Proofs.Run.Begun
import QuasiNewton.Proofs.RankOne.Reuse
import QuasiNewton.Proofs.Run.Watched
import QuasiNewton.Proofs.Logging.Configured
import QuasiNewton.Proofs.RankOne.Watched
import QuasiNewton.Proofs.LineSearch.SecantSearch
import QuasiNewton.Proofs.RankOne.Correction
import QuasiNewton.Proofs.RankOne.Definite
import QuasiNewton.Proofs.RankOne.Direct
import QuasiNewton.Proofs.RankOne.Drift
import QuasiNewton.Proofs.LineSearch.FirstAcceptable
import QuasiNewton.Proofs.LineSearch.LongEnough
import QuasiNewton.Proofs.Objective.VectorCode
import QuasiNewton.Proofs.Objective.Asked
import QuasiNewton.Proofs.LineSearch.Stretching
import QuasiNewton.Proofs.LineSearch.Scales
import QuasiNewton.Proofs.Objective.Cubics
import QuasiNewton.Proofs.Objective.Validated
import QuasiNewton.Proofs.Binary64.Counts
import QuasiNewton.Proofs.LineSearch.Settings
import QuasiNewton.Proofs.LineSearch.Zoom
import QuasiNewton.Proofs.Exact.Pivots
import QuasiNewton.Proofs.Logging.Calls
