import LoadBench.Pass
import LoadBench.Rehearsal.Script

/-!
# Sessions

A session performs a script step by step and answers each step. All operations are the machines
of the library, run from their first point to their end without anything in between except what
the script puts into hooks, workload calls and sleeps. The clock is virtual: it moves by the
costs of the script and by every sleep, and stops at the largest 64-bit count.

A session that waits for a section which it holds itself never answers; it has no result.
-/

namespace LoadBench.Rehearsal

inductive Answer where
  | ok
  | failed (e : Failure)
  | crashed (text : String)
  | flag (b : Bool)
  | noHandle
  | nothing
  | waited (r : Outcome Unit) (evaluations : Nat)
  | info (c : Iteration) (age : Nat)
  | fixture (name : String) (value : Nat) (same : Bool)
  | registry (size : Nat) (names : List String)
  | measured (raw : Tally) (calls : Nat) (mode : Mode) (report : Report)
  /-- The phase that a pass reached is known only of a pass that was kept. -/
  | ran (r : Outcome Report) (phase : Option Phase) (calls : Nat)

namespace Answer

def ofOutcome : Outcome Unit → Answer
  | .ok _ => ok
  | .failed e => failed e
  | .crashed text => crashed text

end Answer

inductive Entry where
  | hook (kind : Nat) (h : Hook) (call : Nat)
  | parameter (name : String) (v : Value)
  | nested (name : String) (a : Answer)
  | note (n : Note)

/-- A gate entered by the script itself, under a number. -/
structure Guard where
  number : Nat
  fixture : Nat
  stage : Stage
  deriving DecidableEq

structure Session where
  memory : Memory := {}
  clock : Nat := 0
  iterations : Array Iteration := #[]
  sites : Array Site := #[]
  handles : Array (Option Nat) := #[]
  guards : List Guard := []
  hookCounts : HookCounts := []
  workCalls : Nat := 0
  /-- What runs inside the sleeps of the step in progress. -/
  cues : List (Cue Step) := []
  sleeps : Array Span := #[]
  log : Array Entry := #[]
  tracing : Bool := false

namespace Session

/-- From this sleep of a step on, every iteration is interrupted. -/
def sleepLimit : Nat := 500

/-- From this call of a workload on, every iteration is interrupted and released. -/
def workLimit : Nat := 100000

def advanceClock (s : Session) (nanos : Nat) : Session :=
  { s with clock := clipCount (s.clock + nanos) }

def write (s : Session) (e : Entry) : Session := { s with log := s.log.push e }

def note (s : Session) (notes : List Note) : Session :=
  if s.tracing then notes.foldl (fun s n => s.write (.note n)) s else s

def signalAll (s : Session) (f : Signals → Signals) : Session :=
  { s with memory := s.iterations.foldl (fun m c => m.signal c f) s.memory }

def site (s : Session) (f : Nat) : Site := s.sites[f]?.getD default

def handle? (s : Session) (f : Nat) : Option Nat := (s.handles[f]?).join

def setHandle (s : Session) (f fixture : Nat) : Session :=
  { s with handles := s.handles.setIfInBounds f (some fixture) }

/-- Creates an iteration; it has a failure flag of its own unless it shares an earlier one. -/
def addIteration (s : Session) (spec : IterationSpec) : Session :=
  let s := s.advanceClock spec.advance
  let id := s.iterations.size
  let flag := match spec.share.bind fun i => s.iterations[i]? with
    | some c => c.trial
    | none => id
  let c : Iteration := {
    number := id
    trial := flag
    benchmark := spec.benchmark
    batch := spec.batch
    duration := spec.duration
    threads := spec.threads
    isLast := spec.isLast
    backoff := spec.backoff
    created := s.clock }
  { s with
    iterations := s.iterations.push c
    memory := { s.memory with signals := s.memory.signals.put id { mask := spec.mask } } }

/-- Slots of one name and kind are one site. -/
def addSlot (s : Session) (spec : SlotSpec) : Session :=
  let site := match s.sites.find? fun t => t.name = spec.name && t.kind = spec.kind with
    | some t => t
    | none => ⟨s.sites.size, spec.name, spec.kind⟩
  { s with sites := s.sites.push site, handles := s.handles.push none }

def raise (s : Session) (c : Iteration) : SignalCall → Session
  | .setFailed =>
    { s with memory := s.memory.setFailed c }.note (s.memory.failureNotes c)
  | .interrupt => { s with memory := s.memory.signal c Signals.interrupt }
  | .spoil => { s with memory := s.memory.signal c Signals.spoil }
  | .close => { s with memory := s.memory.signal c Signals.close }
  | .freeWarmup => { s with memory := s.memory.signal c Signals.freeWarmup }
  | .freeWarmdown => { s with memory := s.memory.signal c Signals.freeWarmdown }
  | .freeAll => { s with memory := s.memory.signal c Signals.freeAll }
  | .enterWarmup => { s with memory := s.memory.signal c Signals.enterWarmup }
  | .enterWarmdown => { s with memory := s.memory.signal c Signals.enterWarmdown }
  | .noteStart => { s with memory := s.memory.signal c Signals.noteStart }
  | .noteStop => { s with memory := s.memory.signal c Signals.noteStop }
  | .widenMask mask => { s with memory := s.memory.signal c fun x => x.widenMask mask }
  | .force => { s with memory := s.memory.signal c Signals.force }

def dropGuard (s : Session) (g : Guard) : Session :=
  { s with
    guards := s.guards.filter fun x => x.number != g.number
    memory := s.memory.setGate g.fixture g.stage (s.memory.gate g.fixture g.stage).leave }

/-- Tries a gate; a guard that was kept under the number is dropped in favour of a new one. -/
def enterGate (s : Session) (fixture : Nat) (stage : Stage) (number : Nat) : Bool × Session :=
  match (s.memory.gate fixture stage).enter? with
  | none => (false, s)
  | some g =>
    let s := { s with memory := s.memory.setGate fixture stage g }
    let s := match s.guards.find? fun x => x.number = number with
      | some old => s.dropGuard old
      | none => s
    (true, { s with guards := ⟨number, fixture, stage⟩ :: s.guards })

def takeHandle (s : Session) (f fixture : Nat) : Answer × Session :=
  (.fixture (s.site f).name (s.memory.fixture fixture).value (s.handle? f = some fixture),
   s.setHandle f fixture)

def siteCount (s : Session) : Nat :=
  (s.sites.toList.map Site.id).foldl (fun (ids : List Nat) i => if ids.contains i then ids
    else i :: ids) []
    |>.length

def siteNames (s : Session) : List String :=
  let distinct := (s.sites.toList.zipIdx.filter fun (t, i) => t.id = i).map fun (t, _) => t.name
  distinct.mergeSort fun a b => !decide (Precedes b a)

end Session

abbrev SessionM := StateT Session Option

/-- Runs a machine from a point to its end; answers the last point as well. -/
def drive {σ α : Type} (answer : Request → SessionM Reply)
    (move : Nat → Memory → σ → Move Memory σ α) : Nat → σ → SessionM (σ × Outcome α)
  | 0, _ => failure
  | fuel + 1, p => do
    let s ← get
    match move s.clock s.memory p with
    | .act m notes stand =>
      set ({ s with memory := m }.note notes)
      match stand with
      | .point q => drive answer move fuel q
      | .ended r => pure (p, r)
    | .ask q k =>
      let reply ← answer q
      match k reply with
      | .point q => drive answer move fuel q
      | .ended r => pure (p, r)
    | .blocked => failure

def driveFuel : Nat := Nat.pow 2 62

def nestingFuel : Nat := Nat.pow 2 62

section Calls
variable (hooks : List (HookScript Step)) (perform : List Step → SessionM Unit)

def playHook (p : Option Parameters) (script : HookScript Step) : SessionM (Option Reply) := do
  let (values, e) := match p with
    | some p => readAll p script.reads
    | none => ([], none)
  modify fun s => values.foldl (fun s v => s.write (.parameter v.1 v.2)) s
  match e with
  | some e => pure (some (.refused e.message))
  | none =>
    perform script.steps
    modify fun s => s.advanceClock script.cost
    match script.crash, script.refusal with
    | some text, _ => pure (some (.crashed text))
    | none, some problem => pure (some (.refused problem))
    | none, none => pure none

def playHooks (p : Option Parameters) : List (HookScript Step) → SessionM (Option Reply)
  | [] => pure none
  | script :: rest => do
    match ← playHook perform p script with
    | some r => pure (some r)
    | none => playHooks p rest

/-- A call of a hook. Fixtures of the kinds 0 and 1 follow the script; all others have
hooks that do nothing. -/
def answerHook (kind : Nat) (h : Hook) (p : Option Parameters) : SessionM Reply := do
  if 2 ≤ kind then pure (.returned 0)
  else
    modify fun s => { s with hookCounts := s.hookCounts.increment kind h }
    let n := (← get).hookCounts.count kind h
    modify fun s => s.write (.hook kind h n)
    match ← playHooks perform p (hooks.filter fun s => s.applies kind h n) with
    | some r => pure r
    | none => pure (.returned n)

def playIncidents : List (Incident Step) → SessionM Reply
  | [] => pure (.returned 0)
  | i :: rest => do
    perform i.steps
    match i.crash with
    | some text => pure (.crashed text)
    | none => playIncidents rest

def answerWork (work : Work Step) : SessionM Reply := do
  modify fun s => { s with workCalls := s.workCalls + 1 }
  let n := (← get).workCalls
  modify fun s => s.advanceClock (costOf work.costs n)
  if Session.workLimit ≤ n then
    modify fun s => s.signalAll fun x => x.interrupt.freeAll
  playIncidents perform (work.incidents.filter fun i => i.call = n)

def playCues : List (Cue Step) → SessionM Unit
  | [] => pure ()
  | cue :: rest => do
    perform cue.steps
    playCues rest

/-- A sleep: the clock has advanced when the cues run. A sleep of no time is over
before anybody notices it. -/
def answerSleep (d : Span) : SessionM Reply := do
  if d.nanos = 0 then pure (.returned 0)
  else
    modify fun s => { s.advanceClock d.nanos with sleeps := s.sleeps.push d }
    let s ← get
    let n := s.sleeps.size
    if Session.sleepLimit ≤ n then
      modify fun s => s.signalAll Signals.interrupt
    playCues perform (s.cues.filter fun cue => cue.sleep = n)
    pure (.returned 0)

def answerRequest (work : Work Step) : Request → SessionM Reply
  | .construct site p => answerHook hooks perform site.kind .construct (some p)
  | .stage site _ s => answerHook hooks perform site.kind (.stage s) none
  | .work => answerWork perform work
  | .sleep d => answerSleep perform d

/-- Runs an operation with a workload of its own; answers also how often that was called. -/
def withWork {σ α : Type} (work : Work Step) (move : Nat → Memory → σ → Move Memory σ α) (p : σ) :
    SessionM (σ × Outcome α × Nat) := do
  let outer := (← get).workCalls
  modify fun s => { s with workCalls := 0 }
  let (q, r) ← drive (answerRequest hooks perform work) move driveFuel p
  let calls := (← get).workCalls
  modify fun s => { s with workCalls := outer }
  pure (q, r, calls)

def withoutWork {σ α : Type} (move : Nat → Memory → σ → Move Memory σ α) (p : σ) :
    SessionM (σ × Outcome α) :=
  drive (answerRequest hooks perform ⟨[], []⟩) move driveFuel p

def performAct (act : Act Step) : SessionM Answer := do
  let s ← get
  let iterationAt (c : Nat) : SessionM Iteration := s.iterations[c]?
  match act with
  | .iteration spec => set (s.addIteration spec); pure .ok
  | .slot spec => set (s.addSlot spec); pure .ok
  | .advance nanos => set (s.advanceClock nanos); pure .ok
  | .signal c call => set (s.raise (← iterationAt c) call); pure .ok
  | .arrive c v =>
    let (_, r) ← withoutWork hooks perform (Arrival.mk (← iterationAt c) v).step .announce
    pure (.ofOutcome r)
  | .wait c policy polls =>
    let iteration ← iterationAt c
    let w : Wait := ⟨iteration, policy.getD iteration.backoff, fun _ _ n => n < polls⟩
    let (p, r) ← withoutWork hooks perform w.step w.start
    pure (.waited r p.evaluations)
  | .info c =>
    let iteration ← iterationAt c
    pure (.info iteration (iteration.age s.clock))
  | .acquire c f =>
    let acquire : Acquire := ⟨← iterationAt c, s.site f⟩
    let (_, r) ← withoutWork hooks perform (fun _ => acquire.step) .look
    match r with
    | .ok fixture => modifyGet fun s => s.takeHandle f fixture
    | .failed e => pure (.failed e)
    | .crashed text => pure (.crashed text)
  | .load f =>
    match s.memory.live? (s.site f) with
    | some fixture => modifyGet fun s => s.takeHandle f fixture
    | none => pure .nothing
  | .release c f =>
    let (_, r) ← withoutWork hooks perform (Release.mk (← iterationAt c) (s.site f)).step .look
    pure (.ofOutcome r)
  | .stage c f stage =>
    match s.handle? f with
    | none => pure .noHandle
    | some fixture =>
      let turn : Turn := ⟨← iterationAt c, s.site f, fixture, stage⟩
      let (_, r) ← withoutWork hooks perform turn.step .enter
      pure (.ofOutcome r)
  | .enter f stage number =>
    match s.handle? f with
    | none => pure .noHandle
    | some fixture =>
      let (won, s) := s.enterGate fixture stage number
      set s
      pure (.flag won)
  | .exit number =>
    match s.guards.find? fun g => g.number = number with
    | none => pure (.flag false)
    | some g => set (s.dropGuard g); pure (.flag true)
  | .waitIdle c f stage policy =>
    match s.handle? f with
    | none => pure .noHandle
    | some fixture =>
      let iteration ← iterationAt c
      let idling : Idling := ⟨iteration, policy.getD iteration.backoff, fixture, stage⟩
      let (_, r) ← withoutWork hooks perform idling.step idling.start
      pure (.ofOutcome r)
  | .registry => pure (.registry s.siteCount s.siteNames)
  | .sameSlot f g => pure (.flag ((s.site f).id = (s.site g).id))
  | .measure c mode work =>
    let iteration ← iterationAt c
    let measurement : Measurement := ⟨iteration, mode.getD iteration.benchmark.mode⟩
    let (_, r, calls) ← withWork hooks perform work measurement.step .start
    match r with
    | .ok raw => pure (.measured raw calls measurement.mode (raw.report measurement.mode iteration))
    | .failed e => pure (.failed e)
    | .crashed text => pure (.crashed text)
  | .run c f mode seat kept work =>
    let iteration ← iterationAt c
    let pass : Pass := ⟨iteration, s.site f, seat, mode.getD iteration.benchmark.mode⟩
    let (p, r, calls) ← withWork hooks perform work pass.step .begin
    modify fun s => match s.memory.live? (s.site f) with
      | some fixture => s.setHandle f fixture
      | none => s
    pure (.ran r (if kept then some p.phase else none) calls)

end Calls

/-- Performs nested steps, each of which is logged when it has finished. -/
def performNested (hooks : List (HookScript Step)) : Nat → List Step → SessionM Unit
  | 0, _ => failure
  | _, [] => pure ()
  | fuel + 1, step :: rest => do
    let answer ← performAct hooks (performNested hooks fuel) step.act
    modify fun s => s.write (.nested step.name answer)
    performNested hooks fuel rest

def performStep (hooks : List (HookScript Step)) (step : Step) : SessionM Answer := do
  modify fun s => { s with log := #[], sleeps := #[], workCalls := 0, cues := step.cues }
  performAct hooks (performNested hooks nestingFuel) step.act

def openSession (tracing : Bool) (iterations : List IterationSpec) (slots : List SlotSpec) :
    Session :=
  slots.foldl Session.addSlot (iterations.foldl Session.addIteration { tracing })

end LoadBench.Rehearsal
