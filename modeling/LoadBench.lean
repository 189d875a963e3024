import LoadBench.Backoff
import LoadBench.Benchmark
import LoadBench.Conductor
import LoadBench.Count
import LoadBench.Crew
import LoadBench.Failure
import LoadBench.Iteration
import LoadBench.Lifecycle.Acquire
import LoadBench.Lifecycle.Gate
import LoadBench.Lifecycle.Release
import LoadBench.Lifecycle.Stage
import LoadBench.Lifecycle.Turn
import LoadBench.Machine
import LoadBench.Measurement
import LoadBench.Memory
import LoadBench.Metric
import LoadBench.Number.Binary
import LoadBench.Number.Decimal
import LoadBench.Number.Integer
import LoadBench.Parameters
import LoadBench.Pass
import LoadBench.Polling
import LoadBench.Proofs.Accord
import LoadBench.Proofs.Accounting
import LoadBench.Proofs.Agreement
import LoadBench.Proofs.Alternation
import LoadBench.Proofs.Attendance
import LoadBench.Proofs.Blame
import LoadBench.Proofs.Calls
import LoadBench.Proofs.Chronicle
import LoadBench.Proofs.Closing
import LoadBench.Proofs.Conducting
import LoadBench.Proofs.Consensus
import LoadBench.Proofs.Construction
import LoadBench.Proofs.Custody
import LoadBench.Proofs.Descent
import LoadBench.Proofs.Duty
import LoadBench.Proofs.Elapsed
import LoadBench.Proofs.Errand
import LoadBench.Proofs.Excuse
import LoadBench.Proofs.FailFast
import LoadBench.Proofs.FullLoad
import LoadBench.Proofs.Generator
import LoadBench.Proofs.Guards
import LoadBench.Proofs.Haste
import LoadBench.Proofs.Health
import LoadBench.Proofs.Iterating
import LoadBench.Proofs.Journey
import LoadBench.Proofs.Judging
import LoadBench.Proofs.LifecycleOrder
import LoadBench.Proofs.Lookup
import LoadBench.Proofs.Masks
import LoadBench.Proofs.Muster
import LoadBench.Proofs.Normalization
import LoadBench.Proofs.Numerals
import LoadBench.Proofs.Operation
import LoadBench.Proofs.Parts
import LoadBench.Proofs.Passage
import LoadBench.Proofs.Path
import LoadBench.Proofs.Patience
import LoadBench.Proofs.Percentile
import LoadBench.Proofs.Period
import LoadBench.Proofs.Phases
import LoadBench.Proofs.Pool
import LoadBench.Proofs.Publication
import LoadBench.Proofs.Rejection
import LoadBench.Proofs.Reporting
import LoadBench.Proofs.Reservoir
import LoadBench.Proofs.Rounding
import LoadBench.Proofs.Schedule
import LoadBench.Proofs.Run
import LoadBench.Proofs.Staging
import LoadBench.Proofs.Stopping
import LoadBench.Proofs.Subgroups
import LoadBench.Proofs.Tenure
import LoadBench.Proofs.Termination
import LoadBench.Proofs.Thinning
import LoadBench.Proofs.Transition
import LoadBench.Proofs.Unhindered
import LoadBench.Proofs.Vacancy
import LoadBench.Proofs.Verdict
import LoadBench.Proofs.Waiting
import LoadBench.Proofs.Winding
import LoadBench.Proofs.Window
import LoadBench.Rehearsal.Performance
import LoadBench.Rehearsal.Script
import LoadBench.Rehearsal.Session
import LoadBench.Samples
import LoadBench.Span
import LoadBench.Summary
import LoadBench.Table
import LoadBench.Trial
import LoadBench.Wait
