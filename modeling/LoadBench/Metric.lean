import LoadBench.Benchmark
import LoadBench.Samples

/-!
# Metrics and reports

A `Metric` is the statistic that one measurement mode produces; its score is a single number in
the unit of the metric, and `nan` when there is nothing to report. A `Report` is what one thread
reports for one iteration: two operation counts and labelled metrics.

`operationCounts` turns counts of invocations or batches into counts of operations. Sums and
products are held in 128 bits on the way and the result in 64 bits.
-/

namespace LoadBench

inductive Metric where
  | throughput (ops : Nat) (elapsed : Span) (unit : TimeUnit)
  | averageTime (ops : Nat) (elapsed : Span) (unit : TimeUnit)
  | sampleTime (samples : Samples) (unit : TimeUnit)
  | singleShot (elapsed : Span) (unit : TimeUnit)
  deriving DecidableEq

namespace Metric

def mode : Metric → Mode
  | throughput .. => .throughput
  | averageTime .. => .averageTime
  | sampleTime .. => .sampleTime
  | singleShot .. => .singleShot

def unit : Metric → TimeUnit
  | throughput _ _ u | averageTime _ _ u | sampleTime _ u | singleShot _ u => u

def scoreUnit : Metric → String
  | throughput _ _ u => "ops/" ++ u.name
  | averageTime _ _ u | sampleTime _ u => u.name ++ "/op"
  | singleShot _ u => u.name

/-- Operations per unit, units per operation, the median sample, or the measured interval. -/
def score : Metric → Binary64
  | throughput ops elapsed u =>
    let window := u.express elapsed
    if Binary64.zero.lt window then (Binary64.ofNat ops).div window else .nan
  | averageTime ops elapsed u =>
    if ops = 0 then .nan else (u.express elapsed).div (.ofNat ops)
  | sampleTime samples u =>
    match samples.median? with
    | some median => u.expressNanos median
    | none => .nan
  | singleShot elapsed u => u.express elapsed

end Metric

inductive Role where
  | primary
  | secondary
  deriving DecidableEq, Repr

structure LabelledMetric where
  role : Role
  label : String
  metric : Metric
  deriving DecidableEq

namespace LabelledMetric

/-- Label, mode, score with three places, and unit. -/
def text (m : LabelledMetric) : String :=
  m.label ++ " (" ++ m.metric.mode.name ++ "): " ++ m.metric.score.toFixed 3 ++ " " ++
    m.metric.scoreUnit

end LabelledMetric

/-- What one thread reports for one iteration. -/
structure Report where
  totalOps : Nat
  windowOps : Nat
  metrics : List LabelledMetric
  deriving DecidableEq

namespace Report

def withMetric (r : Report) (m : LabelledMetric) : Report := { r with metrics := r.metrics ++ [m] }

def primary? (r : Report) : Option LabelledMetric := r.metrics.find? fun m => m.role = .primary

end Report

/-- A number held in 128 bits stops at the largest one. -/
def clipWide (n : Nat) : Nat := min n (Nat.pow 2 128 - 1)

/-- Operations in `count` invocations, each standing for `ops`, per batch of `batch`. -/
def scaleOps (count : Nat) (ops batch : Quantity) : Nat :=
  clipCount (clipWide (count * ops) / batch)

/-- Both counts of a measurement, the one outside the window and the one inside, as operations:
everything first, then the measured part. Sampled and single-shot measurements count batches,
the others invocations. -/
def operationCounts (mode : Mode) (outside measured : Nat) (batch ops : Quantity) : Nat × Nat :=
  match mode with
  | .sampleTime | .singleShot =>
    (scaleOps (clipWide (outside + clipWide (measured * batch))) ops batch,
     clipCount (clipWide (measured * ops)))
  | .throughput | .averageTime =>
    (scaleOps (clipWide (outside + measured)) ops batch, scaleOps measured ops batch)

end LoadBench
