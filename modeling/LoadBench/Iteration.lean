import LoadBench.Backoff
import LoadBench.Benchmark

/-!
# Iterations

What the threads of one iteration know of it, in two parts. An `Iteration` never changes: it says
what is measured, by how many threads and when it was created, and it points to its signals and
to the failure flag of its trial. The `Signals` are what the threads and the conductor raise
while the iteration runs.
-/

namespace LoadBench

structure Signals where
  done : Bool := false
  /-- Measurement stops at once and the batch in progress is abandoned. -/
  spoiled : Bool := false
  interrupted : Bool := false
  started : Bool := false
  stopped : Bool := false
  warmupHeld : Bool := true
  warmdownHeld : Bool := true
  warmupReady : Nat := 0
  warmdownReady : Nat := 0
  setUpArrivals : Nat := 0
  tearDownArrivals : Nat := 0
  /-- Some thread went on to the teardown without waiting for the others. -/
  forced : Bool := false
  /-- The widest sampling mask that a thread has reached. -/
  mask : UInt32 := 0
  deriving DecidableEq, Inhabited

namespace Signals

def freeWarmup (s : Signals) : Signals := { s with warmupHeld := false }

def freeWarmdown (s : Signals) : Signals := { s with warmdownHeld := false }

def close (s : Signals) : Signals := { s with done := true }

def spoil (s : Signals) : Signals := { s with spoiled := true }

def interrupt (s : Signals) : Signals := { s with interrupted := true }

/-- Lets every loop end, so that all threads can leave. -/
def freeAll (s : Signals) : Signals := s.freeWarmup.close.spoil.freeWarmdown

def enterWarmup (s : Signals) : Signals := { s with warmupReady := s.warmupReady + 1 }

def enterWarmdown (s : Signals) : Signals := { s with warmdownReady := s.warmdownReady + 1 }

def noteStart (s : Signals) : Signals := { s with started := true }

def noteStop (s : Signals) : Signals := { s with stopped := true }

def force (s : Signals) : Signals := { s with forced := true }

def widenMask (s : Signals) (mask : UInt32) : Signals := { s with mask := max s.mask mask }

end Signals

/-- The two points where the threads of an iteration wait for each other. -/
inductive Rendezvous where
  | setUp
  | tearDown
  deriving DecidableEq, Repr

namespace Rendezvous

def arrivals : Rendezvous → Signals → Nat
  | setUp, s => s.setUpArrivals
  | tearDown, s => s.tearDownArrivals

def arrive : Rendezvous → Signals → Signals
  | setUp, s => { s with setUpArrivals := s.setUpArrivals + 1 }
  | tearDown, s => { s with tearDownArrivals := s.tearDownArrivals + 1 }

end Rendezvous

/-- One iteration of a benchmark: what it measures, by how many threads, and when it was created. -/
structure Iteration where
  /-- Its signals are kept under this number. -/
  number : Nat
  /-- The failure flag of its trial is kept under this number. -/
  trial : Nat
  benchmark : Benchmark
  batch : Quantity
  duration : Span
  threads : Quantity
  isLast : Bool
  backoff : Backoff
  created : Nat

namespace Iteration

/-- Samples recorded per millisecond of the window before a buffer is thinned. -/
def quotaPerMillisecond : Nat := 20

def sampleQuota (i : Iteration) : Nat := clipCount (i.duration.millis * quotaPerMillisecond)

/-- Nanoseconds since the iteration was created, as a 64-bit count. -/
def age (i : Iteration) (now : Nat) : Nat := clipCount (now - i.created)

end Iteration
end LoadBench
