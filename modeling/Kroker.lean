import Kroker.Graph.Confluence
import Kroker.Gates.Decisions
import Kroker.Board.Log
import Kroker.Board.Agents
import Kroker.Board.Blobs
import Kroker.Board.Concurrency
import Kroker.Merge.Step
import Kroker.Graph.Redelivery
import Kroker.Graph.DispatchFaithful
import Kroker.Graph.Validation
import Kroker.Build.Scheduler
import Kroker.Crew.Spend
import Kroker.Usage.Host
import Kroker.Deploy.Step
import Kroker.Research.Charges
import Kroker.Graph.Rejection
import Kroker.Assessment.Judgment
import Kroker.Merge.FailClosed
import Kroker.Code.Verdict
import Kroker.Triage.Delta
import Kroker.Assessment.Attribution
import Kroker.Editor.Late
import Kroker.Toolchain.Sarif
import Kroker.Dashboard.RunGraph
import Kroker.Dashboard.Selection
import Kroker.Venv.Exclusion
import Kroker.Git.Disposable
import Kroker.Git.Backstop
import Kroker.Harness.Ratchet
import Kroker.Harness.Spelling
import Kroker.Capability.Partition
import Kroker.Assessment.Ranges
import Kroker.Harness.Readers
import Kroker.Analyze.Traces
import Kroker.Assessment.Cascades
import Kroker.Clarify.Merge
import Kroker.Editor.Rename
import Kroker.Graph.Reentry
import Kroker.Graph.Store
import Kroker.Merge.ChangeScope
import Kroker.Git.Worktrees
import Kroker.Crew.Deadline
import Kroker.Gates.Timetable
import Kroker.Graph.Identity
import Kroker.Research.DeadAttempts
import Kroker.Research.Step
import Kroker.Triage.Clones
import Kroker.Usage.Budget
import Kroker.Assessment.CandidateMerge
import Kroker.Assessment.RiskGate
import Kroker.Dashboard.PollerRuns
import Kroker.Gates.Revisable
import Kroker.Graph.Components
