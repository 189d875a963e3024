import LoadBench.Span

/-!
# Backoff

The delays slept between two looks at a condition. The first delay is given; every later one is
the double of the one before it, either raised to a floor or held below a limit. Doubling stops
at the longest span. A sequence has no state but its next delay, so sequences of one policy do
not influence each other.
-/

namespace LoadBench

/-- What bounds the doubled delay. -/
inductive Growth where
  | floorJump (floor : Span)
  | exponential (limit : Span)
  deriving DecidableEq

structure Backoff where
  initial : Span
  growth : Growth
  deriving DecidableEq

namespace Backoff

def floorJump (initial floor : Span) : Backoff := ⟨initial, .floorJump floor⟩

def exponential (initial limit : Span) : Backoff := ⟨initial, .exponential limit⟩

/-- One millisecond once, then 1024 milliseconds and on from there. -/
def standard : Backoff := floorJump (.ofMillis 1) (.ofMillis 1024)

instance : Inhabited Backoff := ⟨standard⟩

/-- The delay after `previous`. -/
def advance (b : Backoff) (previous : Span) : Span :=
  match b.growth with
  | .floorJump floor => previous.double.longer floor
  | .exponential limit => previous.double.shorter limit

def delay (b : Backoff) : Nat → Span
  | 0 => b.initial
  | n + 1 => b.advance (b.delay n)

/-- A sequence of delays in progress: its policy and the delay that it hands out next. -/
structure Sequence where
  policy : Backoff
  next : Span

namespace Sequence

def start (b : Backoff) : Sequence := ⟨b, b.initial⟩

def advance (q : Sequence) : Sequence := { q with next := q.policy.advance q.next }

/-- The next delays. -/
def delays (q : Sequence) : Nat → List Span
  | 0 => []
  | n + 1 => q.next :: q.advance.delays n

end Sequence
end Backoff
end LoadBench
