import LoadBench.Span

/-!
# Polling

`pollUntil` looks at a condition every millisecond until it holds or a deadline has come. The
condition may change from one evaluation to the next and may take time itself. A condition that
holds wins over a deadline that has come, and the deadline is looked at after every evaluation
that failed.
-/

namespace LoadBench

/-- The surroundings of a poll: evaluation number `n`, counted from one, begun at an instant,
with its result and the instant at which it ends; and the instant at which a pause ends. -/
structure Surroundings where
  evaluate : Nat → Nat → Bool × Nat
  pause : Nat → Nat

/-- How a poll has ended: whether the condition held, after how many evaluations, and when. -/
structure Polled where
  held : Bool
  evaluations : Nat
  clock : Nat
  deriving DecidableEq, Repr

def pollInterval : Nat := 1000000

/-- The deadline has come; a deadline that is not representable never does. -/
def isPast (deadline : Option Nat) (now : Nat) : Bool :=
  match deadline with
  | some d => d ≤ now
  | none => false

/-- Polls from evaluation number `n` at an instant, for as many evaluations as there is fuel. -/
def pollFrom (w : Surroundings) (deadline : Option Nat) : Nat → Nat → Nat → Option Polled
  | 0, _, _ => none
  | fuel + 1, n, now =>
    let (held, later) := w.evaluate n now
    if held then some ⟨true, n, later⟩
    else if isPast deadline later then some ⟨false, n, later⟩
    else pollFrom w deadline fuel (n + 1) (w.pause later)

def pollUntil (w : Surroundings) (timeout : Span) (fuel now : Nat) : Option Polled :=
  pollFrom w (timeout.after? now) fuel 1 now

end LoadBench
