import LoadBench.Memory

/-!
# The measured loop

Every mode runs batches of workload calls. Throughput and average time run batches of one call
until the window closes, sampled time runs whole batches and times some of them, and a single
shot runs exactly one batch. The spoiler is looked at before every call and ends the loop at
once, so that a batch in progress counts for nothing; the end of the window is looked at after
every batch.
-/

namespace LoadBench

/-- The counters of one thread for one iteration. -/
structure Tally where
  totalOps : Nat := 0
  /-- Batches completed in the measured loop. -/
  windowOps : Nat := 0
  elapsed : Span := .zero
  samples : Samples := .empty
  spoiled : Bool := false
  deriving DecidableEq

namespace Tally

def addOps (r : Tally) (ops : Nat) : Tally := { r with totalOps := clipCount (r.totalOps + ops) }

def metric (r : Tally) (mode : Mode) (ops : Nat) (unit : TimeUnit) : Metric :=
  match mode with
  | .throughput => .throughput ops r.elapsed unit
  | .averageTime => .averageTime ops r.elapsed unit
  | .sampleTime => .sampleTime r.samples unit
  | .singleShot => .singleShot r.elapsed unit

def report (r : Tally) (mode : Mode) (c : Iteration) : Report :=
  let (all, measured) := operationCounts mode r.totalOps r.windowOps c.batch c.benchmark.opsPerCall
  ⟨all, measured, [⟨.primary, c.benchmark.label, r.metric mode measured c.benchmark.unit⟩]⟩

end Tally

structure Measurement where
  iteration : Iteration
  mode : Mode

namespace Measurement

def batchSize (s : Measurement) : Quantity :=
  match s.mode with
  | .throughput | .averageTime => .one
  | .sampleTime | .singleShot => s.iteration.batch

/-- A loop in progress: when it began, the batches completed, and for sampled time the draw of the
current batch, when that batch began if it is timed, and the samples so far. -/
structure Loop where
  began : Nat
  batches : Nat
  draw : UInt32
  timedFrom : Option Nat
  sampler : Sampler

inductive Point where
  | start
  | beginBatch (l : Loop)
  /-- `left` calls of the batch remain. -/
  | checkSpoiled (l : Loop) (left : Nat)
  | work (l : Loop) (left : Nat)
  | endBatch (l : Loop)
  | checkDone (l : Loop)
  | stop (l : Loop) (spoiled : Bool)
  | widenMask (l : Loop) (r : Tally)

/-- The batch that follows: sampled time draws, and reads the clock if the draw picks the batch. -/
def Loop.nextBatch (l : Loop) (s : Measurement) (now : Nat) : Loop :=
  match s.mode with
  | .sampleTime =>
    let draw := nextDraw l.draw
    { l with draw, timedFrom := if l.sampler.picks draw then some now else none }
  | _ => l

/-- A completed batch: counted, and recorded if it was timed. -/
def Loop.completed (l : Loop) (s : Measurement) (now : Nat) : Loop :=
  let counted := { l with batches := clipCount (l.batches + 1) }
  match l.timedFrom with
  | some from_ =>
    let nanos := clipCount (now - from_)
    { counted with sampler := l.sampler.add (nanos / s.iteration.benchmark.opsPerCall) }
  | none => counted

/-- What a loop that ends at `now` has measured. -/
def Loop.result (l : Loop) (now : Nat) (spoiled : Bool) : Tally where
  windowOps := l.batches
  elapsed := .between l.began now
  samples := l.sampler.samples
  spoiled := spoiled

def step (s : Measurement) (now : Nat) (m : Memory) : Point → Move Memory Point Tally
  | .start =>
    .act m [] (.point (.beginBatch {
      began := now
      batches := 0
      draw := (s.iteration.age now).toUInt32
      timedFrom := none
      sampler := .start s.iteration.sampleQuota (m.signalsOf s.iteration).mask }))
  | .beginBatch l => .act m [] (.point (.checkSpoiled (l.nextBatch s now) s.batchSize))
  | .checkSpoiled l left =>
    if (m.signalsOf s.iteration).spoiled then .act m [] (.point (.stop l true))
    else .act m [] (.point (.work l left))
  | .work l left => .ask .work fun
    | .crashed text => .ended (.crashed text)
    | _ => .point (if left ≤ 1 then .endBatch l else .checkSpoiled l (left - 1))
  | .endBatch l =>
    .act m [] (.point
      (if s.mode = .singleShot then .stop (l.completed s now) false
       else .checkDone (l.completed s now)))
  | .checkDone l =>
    .act m [] (.point (if (m.signalsOf s.iteration).done then .stop l false else .beginBatch l))
  | .stop l spoiled =>
    let r := l.result now spoiled
    if s.mode = .sampleTime then .act m [] (.point (.widenMask l r))
    else .act m [] (.ended (.ok r))
  | .widenMask l r =>
    .act (m.signal s.iteration fun x => x.widenMask l.sampler.mask) [] (.ended (.ok r))

end Measurement
end LoadBench
