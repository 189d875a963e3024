import LoadBench.Measurement

/-!
# Scripts of a rehearsal

A rehearsal runs the operations of the harness on a single thread in virtual time, with hooks,
workload and sleeps that follow a script. A script is a list of steps; whatever a step calls may
run further steps in the middle of it, which is how the other threads of a real trial are
played. This module holds the vocabulary only.
-/

namespace LoadBench.Rehearsal

structure IterationSpec where
  benchmark : Benchmark
  batch : Quantity
  duration : Span
  threads : Quantity
  isLast : Bool
  backoff : Backoff
  mask : UInt32
  /-- An earlier iteration whose failure flag is shared. -/
  share : Option Nat
  /-- How far the clock advances before the creation. -/
  advance : Nat

structure SlotSpec where
  name : String
  kind : Nat
  deriving DecidableEq

/-- A call that raises signals and returns nothing. -/
inductive SignalCall where
  | setFailed
  | interrupt
  | spoil
  | close
  | freeWarmup
  | freeWarmdown
  | freeAll
  | enterWarmup
  | enterWarmdown
  | noteStart
  | noteStop
  | widenMask (mask : UInt32)
  | force
  deriving DecidableEq

/-- What happens in one call of a workload: some steps, and perhaps a crash after them. -/
structure Incident (σ : Type) where
  call : Nat
  steps : List σ
  crash : Option String

/-- A workload: how much time its calls take, in turn, and what happens in some of them. -/
structure Work (σ : Type) where
  costs : List Nat
  incidents : List (Incident σ)

/-- Steps that run inside a sleep, counted from the beginning of the step that slept first. -/
structure Cue (σ : Type) where
  sleep : Nat
  steps : List σ

inductive Act (σ : Type) where
  | iteration (spec : IterationSpec)
  | slot (spec : SlotSpec)
  | advance (nanos : Nat)
  | signal (c : Nat) (call : SignalCall)
  | arrive (c : Nat) (v : Rendezvous)
  /-- Waits while a condition holds that gives way after some evaluations. -/
  | wait (c : Nat) (policy : Option Backoff) (polls : Nat)
  | info (c : Nat)
  | acquire (c f : Nat)
  | load (f : Nat)
  | release (c f : Nat)
  | stage (c f : Nat) (s : Stage)
  | enter (f : Nat) (s : Stage) (guard : Nat)
  | exit (guard : Nat)
  | waitIdle (c f : Nat) (s : Stage) (policy : Option Backoff)
  | registry
  | sameSlot (f g : Nat)
  | measure (c : Nat) (mode : Option Mode) (work : Work σ)
  /-- A whole pass. Whoever only waits for its result, and does not keep the pass, cannot ask it
  afterwards which phase it reached. -/
  | run (c f : Nat) (mode : Option Mode) (seat : Seat) (kept : Bool) (work : Work σ)

/-- A step, with the name under which it is logged when it is nested. -/
inductive Step where
  | mk (name : String) (act : Act Step) (cues : List (Cue Step))

namespace Step

def name : Step → String
  | mk name _ _ => name

def act : Step → Act Step
  | mk _ act _ => act

def cues : Step → List (Cue Step)
  | mk _ _ cues => cues

end Step

/-- What a hook of the fixtures of a kind does in one of its calls, or in all of them. -/
structure HookScript (σ : Type) where
  kind : Nat
  hook : Hook
  call : Option Nat
  reads : List (String × ValueKind)
  steps : List σ
  cost : Nat
  crash : Option String
  refusal : Option String

/-- Whether a script is for call number `n` of a hook. -/
def HookScript.applies {σ : Type} (s : HookScript σ) (kind : Nat) (h : Hook) (n : Nat) : Bool :=
  s.kind = kind && s.hook = h && (match s.call with
    | some k => k = n
    | none => true)

def readAll (p : Parameters) : List (String × ValueKind) → List (String × Value) × Option Failure
  | [] => ([], none)
  | (name, kind) :: rest =>
    match p.read kind name with
    | .error e => ([], some e)
    | .ok v => let (vs, e) := readAll p rest; ((name, v) :: vs, e)

/-- The cost of call number `n`, counted from one, when the costs repeat. -/
def costOf (costs : List Nat) (n : Nat) : Nat :=
  if costs.isEmpty then 0 else costs[(n - 1) % costs.length]?.getD 0

/-- How often each hook of each kind has been called. -/
abbrev HookCounts := List ((Nat × Hook) × Nat)

namespace HookCounts

def count (cs : HookCounts) (kind : Nat) (h : Hook) : Nat := (cs.lookup (kind, h)).getD 0

def increment (cs : HookCounts) (kind : Nat) (h : Hook) : HookCounts :=
  ((kind, h), cs.count kind h + 1) :: cs.filter fun e => e.1 != (kind, h)

end HookCounts
end LoadBench.Rehearsal
