import LoadBench.Memory

/-!
# Bounded waits

All waiting is polling with backoff. A `Wait` evaluates its condition, and while it holds sleeps
for the next delay and then looks first at the failure flag and then at the interruption: either
one ends the wait before the condition is evaluated again. A rendezvous is an arrival followed
by a wait for the other arrivals; idling at a gate is a wait for the gate followed by one more
look at the failure flag, which the owner of the gate sets before leaving.
-/

namespace LoadBench

/-- A condition may depend on the shared state, the clock, and how often it was evaluated before. -/
abbrev Condition := Memory → Nat → Nat → Bool

structure Wait where
  iteration : Iteration
  policy : Backoff
  holds : Condition

namespace Wait

/-- Each point carries how often the wait has slept, and its next delay. -/
inductive Point where
  | poll (slept : Nat) (delay : Span)
  | doze (slept : Nat) (delay : Span)
  | checkFailed (slept : Nat) (delay : Span)
  | checkInterrupted (slept : Nat) (delay : Span)
  deriving DecidableEq

def start (w : Wait) : Point := .poll 0 w.policy.initial

def step (w : Wait) (now : Nat) (m : Memory) : Point → Move Memory Point Unit
  | .poll n d =>
    if w.holds m now n then .act m [] (.point (.doze n d)) else .act m [] (.ended (.ok ()))
  | .doze n d => .ask (.sleep d) fun _ => .point (.checkFailed (n + 1) (w.policy.advance d))
  | .checkFailed n d =>
    if m.hasFailed w.iteration then .act m [] (.ended (.failed .aborted))
    else .act m [] (.point (.checkInterrupted n d))
  | .checkInterrupted n d =>
    if m.isInterrupted w.iteration then .act m [] (.ended (.failed .aborted))
    else .act m [] (.point (.poll n d))

/-- How often the condition has been evaluated once the wait has ended at a point. -/
def Point.evaluations : Point → Nat
  | .poll n _ | .doze n _ => n + 1
  | .checkFailed n _ | .checkInterrupted n _ => n

end Wait

/-- One thread's part in a rendezvous. -/
structure Arrival where
  iteration : Iteration
  rendezvous : Rendezvous

namespace Arrival

inductive Point where
  | announce
  | waiting (p : Wait.Point)
  deriving DecidableEq

/-- Somebody has not arrived yet. -/
def wait (a : Arrival) : Wait where
  iteration := a.iteration
  policy := a.iteration.backoff
  holds m _ _ := a.rendezvous.arrivals (m.signalsOf a.iteration) < a.iteration.threads

def step (a : Arrival) (now : Nat) (m : Memory) : Point → Move Memory Point Unit
  | .announce =>
    .act (m.signal a.iteration a.rendezvous.arrive) [] (.point (.waiting a.wait.start))
  | .waiting p => (a.wait.step now m p).andThen .waiting .ended

end Arrival

/-- Waiting until a gate of a fixture is idle. -/
structure Idling where
  iteration : Iteration
  policy : Backoff
  fixture : Nat
  stage : Stage

namespace Idling

inductive Point where
  | waiting (p : Wait.Point)
  | checkFailed
  deriving DecidableEq

def wait (i : Idling) : Wait where
  iteration := i.iteration
  policy := i.policy
  holds m _ _ := (m.gate i.fixture i.stage).isActive

def start (i : Idling) : Point := .waiting i.wait.start

def step (i : Idling) (now : Nat) (m : Memory) : Point → Move Memory Point Unit
  | .waiting p => (i.wait.step now m p).andThen .waiting fun
    | .ok _ => .point .checkFailed
    | r => .ended r
  | .checkFailed =>
    .act m [] (.ended (if m.hasFailed i.iteration then .failed .aborted else .ok ()))

end Idling
end LoadBench
