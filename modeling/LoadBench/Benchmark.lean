import LoadBench.Parameters

/-!
# What a benchmark is

The measurement mode, the unit in which results are reported, and the description of a benchmark
that stays the same for a whole trial. Conversions into a unit are divisions of an exact
nanosecond count, each rounded as `Binary64` rounds.
-/

namespace LoadBench

inductive Mode where
  /-- Operations per unit of time. -/
  | throughput
  /-- Time per operation. -/
  | averageTime
  /-- Distribution of sampled times per operation. -/
  | sampleTime
  /-- Time of one batch, without a measurement window. -/
  | singleShot
  deriving DecidableEq, Repr

namespace Mode

def name : Mode → String
  | throughput => "thrpt"
  | averageTime => "avgt"
  | sampleTime => "sample"
  | singleShot => "ss"

/-- Whether the measured loop stands between a warmup loop and a warmdown loop. -/
def hasWarmLoops (m : Mode) : Bool := m ≠ .singleShot

end Mode

inductive TimeUnit where
  | nanoseconds
  | microseconds
  | milliseconds
  | seconds
  deriving DecidableEq, Repr

namespace TimeUnit

instance : Inhabited TimeUnit := ⟨seconds⟩

def name : TimeUnit → String
  | nanoseconds => "ns"
  | microseconds => "us"
  | milliseconds => "ms"
  | seconds => "s"

def nanos : TimeUnit → Nat
  | nanoseconds => 1
  | microseconds => 1000
  | milliseconds => 1000000
  | seconds => 1000000000

def size (u : TimeUnit) : Binary64 := .ofNat u.nanos

def expressNanos (u : TimeUnit) (n : Nat) : Binary64 := (Binary64.ofNat n).div u.size

def express (u : TimeUnit) (d : Span) : Binary64 := u.expressNanos d.nanos

end TimeUnit

/-- A benchmark: the label it is reported under, how it is measured, how many operations one
invocation of the workload stands for, and the parameters of its fixture. -/
structure Benchmark where
  label : String
  mode : Mode
  opsPerCall : Quantity
  unit : TimeUnit
  parameters : Parameters

namespace Benchmark

/-- A benchmark with one operation per invocation, reported in seconds, without parameters. -/
def plain (label : String) (mode : Mode) : Benchmark := ⟨label, mode, .one, .seconds, .empty⟩

end Benchmark

/-- Where a thread stands in its group. -/
structure Seat where
  index : Nat
  threads : Quantity
  subgroup : Nat
  deriving DecidableEq, Repr

end LoadBench
