import LoadBench.Lifecycle.Acquire
import LoadBench.Lifecycle.Release
import LoadBench.Measurement

/-!
# One thread's pass through an iteration

A pass acquires the fixture, meets the other threads, sets the iteration up, runs the warmup
loop, the measured loop and the warmdown loop, meets the other threads again, tears the iteration
down, and in the last iteration releases the fixture. Single-shot measurement has no warm
loops. A crash anywhere marks the trial failing on the way out.

`Pass.Point.phase` tells the phase of every point, also of the points where a pass has ended.
-/

namespace LoadBench

structure Pass where
  iteration : Iteration
  site : Site
  seat : Seat
  mode : Mode

namespace Pass

inductive Point where
  | begin
  | reject
  | acquire (p : Acquire.Point)
  | arrive (fixture : Nat) (p : Arrival.Point)
  | setUp (fixture : Nat) (p : Turn.Point)
  | enterWarmup (fixture : Nat)
  | warmupGate (fixture ops : Nat)
  | warmupWork (fixture ops : Nat)
  | noteStart (fixture ops : Nat)
  | measure (fixture ops : Nat) (p : Measurement.Point)
  | noteStop (fixture ops : Nat) (r : Tally)
  | enterWarmdown (fixture ops : Nat) (r : Tally)
  | warmdownGate (fixture ops : Nat) (r : Tally)
  | warmdownWork (fixture ops : Nat) (r : Tally)
  | depart (fixture : Nat) (r : Tally) (p : Arrival.Point)
  /-- The rendezvous was aborted: by an interruption? -/
  | checkInterrupted (fixture : Nat) (r : Tally)
  /-- The iteration was interrupted: is the trial failing as well? -/
  | checkFailed (fixture : Nat) (r : Tally)
  | force (fixture : Nat) (r : Tally)
  | tearDown (fixture : Nat) (r : Tally) (p : Turn.Point)
  | enterRelease (r : Tally)
  | release (r : Tally) (p : Release.Point)
  | finish (from_ : Phase) (r : Tally)
  | fail (phase : Phase) (e : Failure)
  /-- The pass is unwinding: the trial is to be marked failing. -/
  | condemn (phase : Phase) (text : String)

/-- The phase of a point; where a pass has failed or crashed, the phase in which it did. -/
def Point.phase : Point → Phase
  | .begin | .reject | .acquire _ | .arrive .. | .setUp .. => .init
  | .enterWarmup .. | .warmupGate .. | .warmupWork .. => .warmup
  | .noteStart .. | .measure .. | .noteStop .. => .measuring
  | .enterWarmdown .. | .warmdownGate .. | .warmdownWork .. | .depart ..
  | .checkInterrupted .. | .checkFailed .. | .force .. | .tearDown .. => .warmdown
  | .enterRelease _ | .release .. => .trialTeardown
  | .finish .. => .done
  | .fail phase _ | .condemn phase _ => phase

def acquisition (a : Pass) : Acquire := ⟨a.iteration, a.site⟩

def arrival (a : Pass) (v : Rendezvous) : Arrival := ⟨a.iteration, v⟩

def turn (a : Pass) (fixture : Nat) (s : Stage) : Turn := ⟨a.iteration, a.site, fixture, s⟩

def measurement (a : Pass) : Measurement := ⟨a.iteration, a.mode⟩

def giveBack (a : Pass) : Release := ⟨a.iteration, a.site⟩

def enterNote (a : Pass) (source target : Phase) : Note := .transition a.seat.index source target

/-- Goes on with the result of a part, or fails in a phase as the part did. -/
def onward {α : Type} (phase : Phase) (next : α → Point) : Outcome α → Stand Point Report
  | .ok v => .point (next v)
  | .failed e => .point (.fail phase e)
  | .crashed text => .point (.condemn phase text)

def afterSetUp (a : Pass) (fixture : Nat) : Point :=
  if a.mode.hasWarmLoops then .enterWarmup fixture else .noteStart fixture 0

def afterMeasured (a : Pass) (fixture ops : Nat) (r : Tally) : Point :=
  if a.mode.hasWarmLoops then .enterWarmdown fixture ops r
  else .depart fixture (r.addOps ops) .announce

def afterTearDown (a : Pass) (r : Tally) : Point :=
  if a.iteration.isLast then .enterRelease r else .finish .warmdown r

/-- A call of the workload inside a warm loop. -/
def warmWork (phase : Phase) (next : Point) : Move Memory Point Report :=
  .ask .work fun
    | .crashed text => .point (.condemn phase text)
    | _ => .point next

def step (a : Pass) (now : Nat) (m : Memory) : Point → Move Memory Point Report
  | .begin =>
    .act m [a.enterNote .init .init]
      (.point (if a.seat.subgroup = 0 then .acquire .look else .reject))
  | .reject =>
    .act (m.setFailed a.iteration) (m.failureNotes a.iteration)
      (.point (.fail .init (.subgroupWithoutRole a.seat.subgroup)))
  | .acquire p =>
    (a.acquisition.step m p).andThen .acquire (onward .init fun f => .arrive f .announce)
  | .arrive f p =>
    ((a.arrival .setUp).step now m p).andThen (.arrive f) (onward .init fun _ => .setUp f .enter)
  | .setUp f p =>
    ((a.turn f ⟨.iteration, .setUp⟩).step now m p).andThen (.setUp f)
      (onward .init fun _ => a.afterSetUp f)
  | .enterWarmup f =>
    .act (m.signal a.iteration Signals.enterWarmup) [a.enterNote .init .warmup]
      (.point (.warmupGate f 0))
  | .warmupGate f ops =>
    .act m [] (.point
      (if (m.signalsOf a.iteration).warmupHeld then .warmupWork f ops else .noteStart f ops))
  | .warmupWork f ops => warmWork .warmup (.warmupGate f (clipCount (ops + 1)))
  | .noteStart f ops =>
    .act (m.signal a.iteration Signals.noteStart)
      [a.enterNote (if a.mode.hasWarmLoops then .warmup else .init) .measuring]
      (.point (.measure f ops .start))
  | .measure f ops p =>
    (a.measurement.step now m p).andThen (.measure f ops) (onward .measuring (.noteStop f ops))
  | .noteStop f ops r =>
    .act (m.signal a.iteration Signals.noteStop) [a.enterNote .measuring .warmdown]
      (.point (a.afterMeasured f ops r))
  | .enterWarmdown f ops r =>
    .act (m.signal a.iteration Signals.enterWarmdown) [] (.point (.warmdownGate f ops r))
  | .warmdownGate f ops r =>
    .act m [] (.point
      (if (m.signalsOf a.iteration).warmdownHeld then .warmdownWork f ops r
       else .depart f (r.addOps ops) .announce))
  | .warmdownWork f ops r => warmWork .warmdown (.warmdownGate f (clipCount (ops + 1)) r)
  | .depart f r p =>
    ((a.arrival .tearDown).step now m p).andThen (.depart f r) fun
      | .ok _ => .point (.tearDown f r .enter)
      | .failed _ => .point (.checkInterrupted f r)
      | .crashed text => .point (.condemn .warmdown text)
  | .checkInterrupted f r =>
    .act m [] (.point (if m.isInterrupted a.iteration then .checkFailed f r
      else .fail .warmdown .aborted))
  | .checkFailed f r =>
    if m.hasFailed a.iteration then .act m [] (.point (.fail .warmdown .aborted))
    else .act m [.forcingTeardown a.seat.index] (.point (.force f r))
  | .force f r => .act (m.signal a.iteration Signals.force) [] (.point (.tearDown f r .enter))
  | .tearDown f r p =>
    ((a.turn f ⟨.iteration, .tearDown⟩).step now m p).andThen (.tearDown f r)
      (onward .warmdown fun _ => a.afterTearDown r)
  | .enterRelease r => .act m [a.enterNote .warmdown .trialTeardown] (.point (.release r .look))
  | .release r p =>
    (a.giveBack.step now m p).andThen (.release r)
      (onward .trialTeardown fun _ => .finish .trialTeardown r)
  | .finish from_ r =>
    if r.spoiled || m.isInterrupted a.iteration then
      .act m [a.enterNote from_ .done] (.point (.fail .done .interrupted))
    else .act m [a.enterNote from_ .done] (.ended (.ok (r.report a.mode a.iteration)))
  | .fail phase e =>
    .act m [.iterationFailed a.iteration.benchmark.label a.seat.index phase e] (.ended (.failed e))
  | .condemn _ text =>
    .act (m.setFailed a.iteration) (m.failureNotes a.iteration) (.ended (.crashed text))

def start : Stand Point Report := .point .begin

end Pass
end LoadBench
