import LoadBench.Count

/-!
# Spans of time and instants

A `Span` is a length of time in nanoseconds that never exceeds `Span.maxNanos`; every
operation that would leave that range stops at its end. An instant is a reading of a monotone
clock, a plain count of nanoseconds. Not every instant is representable: `Span.after?` says
when the end of a span is.
-/

namespace LoadBench

def nanosPerSecond : Nat := 1000000000

/-- The longest span, in nanoseconds: a 64-bit count of seconds and the nanoseconds beyond it. -/
def Span.maxNanos : Nat := maxCount * nanosPerSecond + 999999999

/-- A length of time, in nanoseconds. -/
structure Span where
  nanos : Nat
  nanos_le : nanos ≤ Span.maxNanos
  deriving DecidableEq

namespace Span

@[ext] theorem ext {a b : Span} (h : a.nanos = b.nanos) : a = b := by
  cases a; cases b; cases h; rfl

def ofNanos (n : Nat) : Span := ⟨min n maxNanos, Nat.min_le_right _ _⟩

@[simp] theorem nanos_ofNanos (n : Nat) : (ofNanos n).nanos = min n maxNanos := rfl

def ofMillis (n : Nat) : Span := ofNanos (n * 1000000)

/-- Whole seconds together with the nanoseconds beyond them. -/
def ofParts (seconds nanos : Nat) : Span := ofNanos (seconds * nanosPerSecond + nanos)

def seconds (d : Span) : Nat := d.nanos / nanosPerSecond

def subsecond (d : Span) : Nat := d.nanos % nanosPerSecond

def zero : Span := ⟨0, Nat.zero_le _⟩

instance : Inhabited Span := ⟨zero⟩

def double (d : Span) : Span := ofNanos (2 * d.nanos)

@[simp] theorem nanos_double (d : Span) : d.double.nanos = min (2 * d.nanos) maxNanos := rfl

def longer (a b : Span) : Span := if a.nanos ≤ b.nanos then b else a

def shorter (a b : Span) : Span := if a.nanos ≤ b.nanos then a else b

@[simp] theorem nanos_longer (a b : Span) : (a.longer b).nanos = max a.nanos b.nanos := by
  unfold longer; split <;> omega

@[simp] theorem nanos_shorter (a b : Span) : (a.shorter b).nanos = min a.nanos b.nanos := by
  unfold shorter; split <;> omega

def millis (d : Span) : Nat := clipCount (d.nanos / 1000000)

/-- From the first instant to the second, nothing if the second comes first. -/
def between (start stop : Nat) : Span := ofNanos (stop - start)

/-- Instants lie below `2 ^ 63` seconds. -/
def instantLimit : Nat := Nat.pow 2 63 * nanosPerSecond

/-- The instant a span after another one, if that instant is representable. -/
def after? (d : Span) (start : Nat) : Option Nat :=
  if start + d.nanos < instantLimit then some (start + d.nanos) else none

theorem after?_eq_some_iff {d : Span} {start stop : Nat} :
    d.after? start = some stop ↔ start + d.nanos < instantLimit ∧ stop = start + d.nanos := by
  unfold after?
  split
  · rename_i h
    exact ⟨fun e => ⟨h, (Option.some.inj e).symm⟩, fun e => congrArg some e.2.symm⟩
  · rename_i h
    exact ⟨fun e => (nomatch e), fun e => absurd e.1 h⟩

end Span
end LoadBench
