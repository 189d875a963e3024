import LoadBench.Rehearsal.Script
import LoadBench.Trial

/-!
# Performances

A performance runs a whole trial under one particular schedule. In rounds, every member of the
group goes as far as it can, then the conductor, then the caller; whoever sleeps goes on in the
next round. A call of the workload in a warm loop, or the one in which the window is to close,
lasts until the conductor has done its part, so that every member makes exactly the calls of
the score. Members have clocks of their own, which only the costs of their calls and hooks move.
-/

namespace LoadBench.Rehearsal

/-- How many calls every member makes in each loop of an iteration, and whether the clock of the
conductor runs past every deadline once the window is closed. -/
structure Score where
  warmup : Nat := 1
  measured : Nat := 1
  warmdown : Nat := 1
  stall : Bool := false
  deriving DecidableEq, Repr

/-- The call of a member that crashes, counted over the whole trial. -/
structure Breakdown where
  member : Nat
  call : Nat
  text : String

structure Program where
  score : Score
  costs : List (List Nat)
  hooks : List (HookScript Empty)
  breakdown : Option Breakdown

structure Performance where
  world : Execution.World
  clocks : Table Nat := .empty
  calls : Table Nat := .empty
  /-- The phase of the last call of each member, and how many calls it made there in a row. -/
  streaks : Table (Option (Phase × Nat)) := .empty
  conductorClock : Nat := 0
  hookCounts : HookCounts := []
  hookLog : Array Hook := #[]

namespace Performance

/-- Calls that a member has made in a phase without another phase in between. -/
def streak (s : Performance) (i : Nat) (phase : Phase) : Nat :=
  match s.streaks.get i with
  | some (p, n) => if p = phase then n else 0
  | none => 0

def beginCall (program : Program) (s : Performance) (i : Nat) (phase : Phase) : Performance :=
  let n := s.calls.get i + 1
  let costs :=
    if program.costs.isEmpty then [] else program.costs[i % program.costs.length]?.getD []
  { s with
    calls := s.calls.put i n
    streaks := s.streaks.put i (some (phase, s.streak i phase + 1))
    clocks := s.clocks.modify i fun t => clipCount (t + costOf costs n) }

/-- The call of a member has to last, because the conductor has not done its part yet. -/
def isHeld (score : Score) (s : Performance) (c : Iteration) (i : Nat) (phase : Phase) : Bool :=
  let signals := s.world.memory.signalsOf c
  match phase with
  | .warmup => score.warmup ≤ s.streak i phase && signals.warmupHeld
  | .measuring =>
    c.benchmark.mode.hasWarmLoops && score.measured ≤ s.streak i phase && !signals.done
  | .warmdown => score.warmdown ≤ s.streak i phase && signals.warmdownHeld
  | _ => false

def hookReply (p : Option Parameters) (n : Nat) : List (HookScript Empty) → Nat × Reply
  | [] => (0, .returned n)
  | script :: rest =>
    match p.bind fun p => (readAll p script.reads).2 with
    | some e => (0, .refused e.message)
    | none =>
      match script.crash, script.refusal with
      | some text, _ => (script.cost, .crashed text)
      | none, some problem => (script.cost, .refused problem)
      | none, none => let (cost, r) := hookReply p n rest; (script.cost + cost, r)

def callHook (program : Program) (s : Performance) (member : Option Nat) (h : Hook)
    (p : Option Parameters) : Performance × Reply :=
  let counts := s.hookCounts.increment 0 h
  let n := counts.count 0 h
  let (cost, r) := hookReply p n (program.hooks.filter fun x => x.applies 0 h n)
  ({ s with
    hookCounts := counts
    hookLog := s.hookLog.push h
    clocks := match member with
      | some i => s.clocks.modify i fun t => clipCount (t + cost)
      | none => s.clocks }, r)

def workReply (program : Program) (s : Performance) (i : Nat) : Reply :=
  match program.breakdown with
  | some b => if b.member = i ∧ b.call = s.calls.get i then .crashed b.text else .returned 0
  | none => .returned 0

inductive Turnout where
  | moved (s : Performance)
  | yielded (s : Performance)

/-- One step of an execution, which hands the turn on if there is none. -/
def take (x : Execution) (s : Performance) (who : Execution.Actor) (now : Nat)
    (reply : Reply) : Turnout :=
  match x.advance who now reply s.world with
  | some (w, _) => .moved { s with world := w }
  | none => .yielded s

/-- The same, but the turn is handed on afterwards in any case. -/
def takeLast (x : Execution) (s : Performance) (who : Execution.Actor) (now : Nat) : Turnout :=
  match x.advance who now (.returned 0) s.world with
  | some (w, _) => .yielded { s with world := w }
  | none => .yielded s

/-- A member: a sleep hands the turn on when it begins, a call that has to last
does so while it does. -/
def turnOfMember (x : Execution) (program : Program) (s : Performance) (i : Nat) : Turnout :=
  let now := s.clocks.get i
  match s.world.point with
  | .running _ g =>
    match g.members[i]? with
    | some ⟨.point p, calling⟩ =>
      match ((x.pass g.iteration i).step now s.world.memory p).request? with
      | none => s.take x (.member i) now (.returned 0)
      | some (.sleep _) =>
        if calling then s.take x (.member i) now (.returned 0) else s.takeLast x (.member i) now
      | some .work =>
        if calling then
          if isHeld program.score s g.iteration i p.phase then .yielded s
          else s.take x (.member i) now (workReply program s i)
        else (beginCall program s i p.phase).take x (.member i) now (.returned 0)
      | some (.construct _ parameters) =>
        if calling then
          let (s, r) := callHook program s (some i) .construct (some parameters)
          s.take x (.member i) now r
        else s.take x (.member i) now (.returned 0)
      | some (.stage _ _ stage) =>
        if calling then
          let (s, r) := callHook program s (some i) (.stage stage) none
          s.take x (.member i) now r
        else s.take x (.member i) now (.returned 0)
    | _ => .yielded s
  | _ => .yielded s

def conductorNow (score : Score) (s : Performance) : Conductor.Point → Nat
  | .drain .. => if score.stall then Span.instantLimit else s.conductorClock
  | _ => s.conductorClock

/-- The conductor: when it wakes inside the window, the end of the window has come. -/
def turnOfConductor (x : Execution) (program : Program) (s : Performance) : Turnout :=
  match s.world.point with
  | .running _ g =>
    match g.conductor with
    | ⟨.point p, calling⟩ =>
      let now := conductorNow program.score s p
      match ((x.conductor g.iteration).step now s.world.memory p).request? with
      | some (.sleep _) =>
        if calling then
          let clock := match p with
            | .doze stop _ => max stop s.conductorClock
            | _ => s.conductorClock
          { s with conductorClock := clock }.take x .conductor now (.returned 0)
        else s.takeLast x .conductor now
      | _ => s.take x .conductor now (.returned 0)
    | _ => .yielded s
  | _ => .yielded s

def turnOfCaller (x : Execution) (program : Program) (s : Performance) : Turnout :=
  match s.world.point with
  | .launch .. => { s with conductorClock := 0 }.take x .caller 0 (.returned 0)
  | .cleaning c _ ⟨.point p, calling⟩ =>
    match ((x.giveBack c).step 0 s.world.memory p).request? with
    | some (.stage _ _ stage) =>
      if calling then
        let (s, r) := callHook program s none (.stage stage) none
        s.take x .caller 0 r
      else s.take x .caller 0 (.returned 0)
    | _ => s.take x .caller 0 (.returned 0)
  | _ => s.take x .caller 0 (.returned 0)

def goOn (turn : Performance → Turnout) : Nat → Performance → Performance
  | 0, s => s
  | fuel + 1, s =>
    match turn s with
    | .moved s => goOn turn fuel s
    | .yielded s => s

def turnFuel : Nat := Nat.pow 2 62

/-- Every member in the order of the seats, then the conductor, then the caller. -/
def round (x : Execution) (program : Program) (s : Performance) : Performance :=
  let s := (List.range x.threads).foldl
    (fun s i => goOn (fun s => turnOfMember x program s i) turnFuel s) s
  let s := goOn (turnOfConductor x program) turnFuel s
  goOn (turnOfCaller x program) turnFuel s

def rounds (x : Execution) (program : Program) :
    Nat → Performance → Option (Outcome Summary × Performance)
  | 0, _ => none
  | fuel + 1, s =>
    match s.world.outcome? with
    | some r => some (r, s)
    | none => rounds x program fuel (round x program s)

def roundFuel : Nat := Nat.pow 2 62

def ofExecution (x : Execution) (program : Program) (m : Memory) :
    Option (Outcome Summary × Performance) :=
  rounds x program roundFuel { world := x.start m }

end Performance

structure Account where
  outcome : Outcome Summary
  hooks : List Hook
  calls : List Nat
  /-- A fixture is still live at the site of the trial. -/
  live : Bool

/-- A group that performs one trial after another: what they leave behind in the shared memory, the
sites they have used, and how many trials and iterations there were. -/
structure Ensemble where
  threads : Quantity
  memory : Memory := {}
  sites : List Site := []
  trials : Nat := 0
  iterations : Nat := 0

namespace Ensemble

/-- The site of a name, a new one if the name is new. -/
def siteOf (e : Ensemble) (name : String) : Site :=
  (e.sites.find? fun s => s.name = name).getD ⟨e.sites.length, name, 0⟩

def perform (e : Ensemble) (t : Trial) (program : Program) : Option (Account × Ensemble) :=
  let site := e.siteOf t.fixture
  let x : Execution := {
    trial := t
    site
    threads := e.threads
    flag := e.trials
    base := e.iterations }
  (Performance.ofExecution x program e.memory).map fun (r, s) =>
    let m := s.world.memory
    ({ outcome := r
       hooks := s.hookLog.toList
       calls := (List.range e.threads).map s.calls.get
       live := (m.live? site).isSome },
     { e with
       memory := m
       sites := if e.sites.contains site then e.sites else e.sites ++ [site]
       trials := e.trials + 1
       iterations := e.iterations + t.iterations })

end Ensemble
end LoadBench.Rehearsal
