import LoadBench.Wait

/-!
# The conductor of an iteration

The conductor stands outside the thread group. It waits until every thread is in its warmup loop,
opens the measurement window, keeps it open for the wanted time, closes it, and waits until every
thread is in its warmdown loop before it lets them go. When the trial fails, or the threads take
longer than the timeout, it releases every loop at once; in the second case it interrupts the
iteration first.
-/

namespace LoadBench

structure Conductor where
  iteration : Iteration
  timeout : Span
  hasWarmLoops : Bool

namespace Conductor

def poll : Backoff := .exponential (.ofNanos 100000) (.ofMillis 1)

/-- The longest single sleep while the window is open. -/
def slice : Span := .ofMillis 5

inductive Point where
  | gather (p : Wait.Point)
  | openWindow
  | markWindow
  /-- Reads the clock inside the window, which ends at an instant if that is representable. -/
  | window (stop : Option Nat)
  | doze (stop : Nat) (d : Span)
  | watch (stop : Nat)
  | close
  /-- Reads the clock to set the deadline of the threads. -/
  | markDeadline
  /-- Waits until all threads are in their warmdown loop, or the deadline has come. -/
  | drain (deadline : Option Nat) (p : Wait.Point)
  | judge
  | interrupt
  | spoilWarmup
  | spoilWindow
  | spoil
  | spoilWarmdown
  | freeWarmdown
  /-- The three releases of an iteration without warm loops. -/
  | freeWarmup
  | freeWindow
  deriving DecidableEq

/-- Some thread has not entered its warmup loop yet. -/
def gathering (c : Conductor) : Wait where
  iteration := c.iteration
  policy := poll
  holds m _ _ := (m.signalsOf c.iteration).warmupReady < c.iteration.threads

/-- Some thread has not entered its warmdown loop yet, and there is time left. -/
def draining (c : Conductor) (deadline : Option Nat) : Wait where
  iteration := c.iteration
  policy := poll
  holds m now _ := (m.signalsOf c.iteration).warmdownReady < c.iteration.threads &&
    match deadline with
    | some d => now < d
    | none => true

def start (c : Conductor) : Point :=
  if c.hasWarmLoops then .gather c.gathering.start else .freeWarmup

def step (c : Conductor) (now : Nat) (m : Memory) : Point → Move Memory Point Unit
  | .gather p => (c.gathering.step now m p).andThen .gather fun
    | .ok _ => .point .openWindow
    | _ => .point .spoilWarmup
  | .openWindow => .act (m.signal c.iteration Signals.freeWarmup) [] (.point .markWindow)
  | .markWindow => .act m [] (.point (.window (c.iteration.duration.after? now)))
  | .window stop =>
    match stop with
    | some stop =>
      if now < stop then .act m [] (.point (.doze stop ((Span.between now stop).shorter slice)))
      else .act m [] (.point .close)
    | none => .act m [] (.point .close)
  | .doze stop d => .ask (.sleep d) fun _ => .point (.watch stop)
  | .watch stop =>
    .act m [] (.point (if m.hasFailed c.iteration then .spoilWarmup else .window (some stop)))
  | .close => .act (m.signal c.iteration Signals.close) [] (.point .markDeadline)
  | .markDeadline =>
    let deadline := c.timeout.after? now
    .act m [] (.point (.drain deadline (c.draining deadline).start))
  | .drain deadline p => ((c.draining deadline).step now m p).andThen (.drain deadline) fun
    | .ok _ => .point .judge
    | _ => .point .spoilWarmup
  | .judge =>
    if (m.signalsOf c.iteration).warmdownReady < c.iteration.threads then
      .act m [.timedOut c.iteration.benchmark.label] (.point .interrupt)
    else .act m [] (.point .freeWarmdown)
  | .interrupt => .act (m.signal c.iteration Signals.interrupt) [] (.point .spoilWarmup)
  | .spoilWarmup => .act (m.signal c.iteration Signals.freeWarmup) [] (.point .spoilWindow)
  | .spoilWindow => .act (m.signal c.iteration Signals.close) [] (.point .spoil)
  | .spoil => .act (m.signal c.iteration Signals.spoil) [] (.point .spoilWarmdown)
  | .spoilWarmdown => .act (m.signal c.iteration Signals.freeWarmdown) [] (.ended (.ok ()))
  | .freeWarmdown => .act (m.signal c.iteration Signals.freeWarmdown) [] (.ended (.ok ()))
  | .freeWarmup => .act (m.signal c.iteration Signals.freeWarmup) [] (.point .freeWindow)
  | .freeWindow => .act (m.signal c.iteration Signals.close) [] (.point .freeWarmdown)

end Conductor
end LoadBench
