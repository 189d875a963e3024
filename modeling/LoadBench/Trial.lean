import LoadBench.Conductor
import LoadBench.Pass
import LoadBench.Summary

/-!
# Trials

A trial runs its warmup iterations and then its measured iterations on every thread of a group,
with one fixture for all of them. An `Execution` is a trial about to run; its `World` is the
shared state together with where everybody stands: the caller who starts the trial, and while an
iteration is running the conductor and the members of the group. `Execution.advance` performs
one step of one of them, for a given clock reading and a given reply of the outside; any sequence
of such steps is a run of the trial.
-/

namespace LoadBench

/-- An operation in progress, and whether the call it waits for has begun. -/
structure Strand (σ α : Type) where
  stand : Stand σ α
  calling : Bool := false

inductive Event where
  | noted (n : Note)
  | called (q : Request)
  | answered (q : Request) (r : Reply)

namespace Strand
variable {σ α : Type}

def outcome? (s : Strand σ α) : Option (Outcome α) := s.stand.outcome?

/-- One step: an action, the beginning of a call, or its end with an admissible reply. A strand
that is over, or blocked, has none. -/
def advance (s : Strand σ α) (move : σ → Move Memory σ α) (m : Memory) (reply : Reply) :
    Option (Memory × List Event × Strand σ α) :=
  match s.stand with
  | .ended _ => none
  | .point p =>
    match move p with
    | .act m' notes stand => some (m', notes.map .noted, ⟨stand, false⟩)
    | .ask q k =>
      if s.calling then
        if q.Admits reply then some (m, [.answered q reply], ⟨k reply, false⟩) else none
      else some (m, [.called q], { s with calling := true })
    | .blocked => none

end Strand

structure Trial where
  fixture : String
  benchmark : Benchmark
  warmups : Nat
  measurements : Quantity
  batch : Quantity
  duration : Span
  subgroups : Quantity
  backoff : Backoff
  timeout : Span

namespace Trial

/-- Throughput, one warmup and three measured iterations of 100 milliseconds, batches of one call,
a single subgroup, the standard backoff, and a timeout of ten minutes. -/
def standard (label fixture : String) : Trial where
  fixture
  benchmark := .plain label .throughput
  warmups := 1
  measurements := ⟨3, by decide, by decide⟩
  batch := .one
  duration := .ofMillis 100
  subgroups := .one
  backoff := .standard
  timeout := .ofMillis 600000

def iterations (t : Trial) : Nat := min (t.warmups + t.measurements) (Nat.pow 2 32 - 1)

end Trial

/-- A trial on a group of threads, with the places that its state takes in the shared memory. -/
structure Execution where
  trial : Trial
  site : Site
  threads : Quantity
  flag : Nat
  /-- The signals of its first iteration; those of the others follow. -/
  base : Nat

/-- The threads of one iteration and its conductor. -/
structure Group where
  iteration : Iteration
  members : List (Strand Pass.Point Report)
  conductor : Strand Conductor.Point Unit

namespace Group

def hasEnded (g : Group) : Bool :=
  g.conductor.stand.hasEnded && g.members.all fun s => s.stand.hasEnded

def outcomes (g : Group) : List (Outcome Report) := g.members.filterMap Strand.outcome?

end Group

namespace Execution

/-- Where the caller of a trial stands. -/
inductive Point where
  | launch (index : Nat) (mask : UInt32)
  | running (index : Nat) (g : Group)
  /-- Some thread has failed: was the iteration interrupted? -/
  | checkInterrupted (c : Iteration) (e : Failure)
  | checkFailed (c : Iteration) (e : Failure)
  /-- The fixture of an interrupted trial is released by the caller. -/
  | cleaning (c : Iteration) (e : Failure) (s : Strand Release.Point Unit)
  | clearing (r : Outcome Summary) (s : Strand Clear.Point Unit)
  | ended (r : Outcome Summary)

structure World where
  memory : Memory
  /-- The reports of the measured iterations so far. -/
  reports : List (List Report)
  point : Point

def groupMessage : String :=
  "worker pool thread count must be divisible by the number of subgroups"

/-- Threads that cannot be divided among the subgroups end the trial before it starts. -/
def start (x : Execution) (m : Memory) : World where
  memory := m
  reports := []
  point := if x.threads.val % x.trial.subgroups.val = 0 then .launch 0 0
    else .ended (.crashed groupMessage)

/-- The iteration of an index, created at an instant. -/
def iteration (x : Execution) (index created : Nat) : Iteration where
  number := x.base + index
  trial := x.flag
  benchmark := x.trial.benchmark
  batch := x.trial.batch
  duration := x.trial.duration
  threads := x.threads
  isLast := index + 1 = x.trial.iterations
  backoff := x.trial.backoff
  created := created

def isWarmup (x : Execution) (index : Nat) : Bool := index < x.trial.warmups

/-- Consecutive threads form a subgroup. -/
def seat (x : Execution) (i : Nat) : Seat :=
  ⟨i, x.threads, i / (x.threads.val / x.trial.subgroups.val)⟩

def pass (x : Execution) (c : Iteration) (i : Nat) : Pass :=
  ⟨c, x.site, x.seat i, x.trial.benchmark.mode⟩

def conductor (x : Execution) (c : Iteration) : Conductor :=
  ⟨c, x.trial.timeout, x.trial.benchmark.mode.hasWarmLoops⟩

def giveBack (x : Execution) (c : Iteration) : Release := ⟨c, x.site⟩

def group (x : Execution) (c : Iteration) : Group where
  iteration := c
  members := (List.range x.threads).map fun _ => ⟨Pass.start, false⟩
  conductor := ⟨.point (x.conductor c).start, false⟩

def firstCrash? {α : Type} : List (Outcome α) → Option String
  | [] => none
  | .crashed text :: _ => some text
  | _ :: rest => firstCrash? rest

/-- The failure to report once another one is met: the first primary one, or else the first. -/
def keepFailure (current : Option Failure) (e : Failure) : Option Failure :=
  match current with
  | none => some e
  | some kept => if kept.isSecondary && !e.isSecondary then some e else some kept

def decisive? {α : Type} (outcomes : List (Outcome α)) : Option Failure :=
  outcomes.foldl (fun current r => match r with
    | .failed e => keepFailure current e
    | _ => current) none

def results {α : Type} (outcomes : List (Outcome α)) : List α :=
  outcomes.filterMap fun r => match r with
    | .ok a => some a
    | _ => none

def summary (x : Execution) (reports : List (List Report)) : Summary :=
  ⟨x.trial.benchmark.label, x.trial.benchmark.mode, reports⟩

def clearSite (r : Outcome Summary) : Point := .clearing r ⟨.point .enter, false⟩

/-- The caller ends the trial with a failure: the site is cleared first. -/
def failWith (x : Execution) (w : World) (e : Failure) : World × List Event :=
  ({ w with point := clearSite (.failed e) },
   [.noted (.trialFailed x.trial.benchmark.label e)])

def settle (x : Execution) (w : World) (index : Nat) (g : Group) : World :=
  match firstCrash? g.outcomes with
  | some text => { w with point := clearSite (.crashed text) }
  | none =>
    match decisive? g.outcomes with
    | some e =>
      { w with
        point :=
          if e.isSecondary then .checkInterrupted g.iteration e else .checkFailed g.iteration e }
    | none =>
      let reports := if x.isWarmup index then w.reports else w.reports ++ [results g.outcomes]
      { w with
        reports
        point :=
          if index + 1 = x.trial.iterations then .ended (.ok (x.summary reports))
          else .launch (index + 1) (w.memory.signalsOf g.iteration).mask }

inductive Actor where
  | caller
  | conductor
  | member (i : Nat)
  deriving DecidableEq, Repr

/-- A step of the caller. An iteration is created when it is launched; while it is running, the
caller waits for everybody in it. -/
def advanceCaller (x : Execution) (now : Nat) (reply : Reply) (w : World) :
    Option (World × List Event) :=
  match w.point with
  | .launch index mask =>
    let c := x.iteration index now
    some ({ w with
        memory := { w.memory with signals := w.memory.signals.put c.number { mask } }
        point := .running index (x.group c) },
      [.noted (.startingIteration x.trial.benchmark.label index (x.isWarmup index))])
  | .running index g => if g.hasEnded then some (x.settle w index g, []) else none
  | .checkInterrupted c e =>
    some ({ w with
        point := .checkFailed c (if w.memory.isInterrupted c then .interrupted else e) }, [])
  | .checkFailed c e =>
    if w.memory.hasFailed c then some (x.failWith w e)
    else some ({ w with point := .cleaning c e ⟨.point .look, false⟩ }, [])
  | .cleaning c e s =>
    match s.advance ((x.giveBack c).step now w.memory) w.memory reply with
    | none => none
    | some (m, events, s) =>
      let w := { w with memory := m }
      match s.outcome? with
      | none => some ({ w with point := .cleaning c e s }, events)
      | some (.ok _) => let (w, more) := x.failWith w e; some (w, events ++ more)
      | some (.failed e) => let (w, more) := x.failWith w e; some (w, events ++ more)
      | some (.crashed text) => some ({ w with point := .ended (.crashed text) }, events)
  | .clearing r s =>
    match s.advance ((Clear.mk x.site).step w.memory) w.memory reply with
    | none => none
    | some (m, events, s) =>
      some ({ w with
          memory := m
          point := if s.stand.hasEnded then .ended r else .clearing r s }, events)
  | .ended _ => none

def advanceConductor (x : Execution) (now : Nat) (reply : Reply) (w : World) :
    Option (World × List Event) :=
  match w.point with
  | .running index g =>
    match g.conductor.advance ((x.conductor g.iteration).step now w.memory) w.memory reply with
    | none => none
    | some (m, events, s) =>
      some ({ w with memory := m, point := .running index { g with conductor := s } }, events)
  | _ => none

def advanceMember (x : Execution) (i now : Nat) (reply : Reply) (w : World) :
    Option (World × List Event) :=
  match w.point with
  | .running index g =>
    match g.members[i]? with
    | none => none
    | some s =>
      match s.advance ((x.pass g.iteration i).step now w.memory) w.memory reply with
      | none => none
      | some (m, events, s) =>
        some ({ w with
          memory := m
          point := .running index { g with members := g.members.set i s } }, events)
  | _ => none

def advance (x : Execution) (who : Actor) (now : Nat) (reply : Reply) (w : World) :
    Option (World × List Event) :=
  match who with
  | .caller => x.advanceCaller now reply w
  | .conductor => x.advanceConductor now reply w
  | .member i => x.advanceMember i now reply w

def World.outcome? (w : World) : Option (Outcome Summary) :=
  match w.point with
  | .ended r => some r
  | _ => none

end Execution
end LoadBench
