import LoadBench.Backoff
import Mathlib.Algebra.Group.Nat.Defs
import Mathlib.Order.Monotone.Basic

/-!
# The schedule of a backoff

Doubling is held at the longest span, and after each doubling the delay is raised to a floor or held
below a limit. All of that comes to a single bound on a power of two: a floor is doubled with the
delay that was raised to it, and no limit lies beyond the longest span (`Backoff.scheduled`).

A sequence is told from the others by the number that it got when it started.
-/

namespace LoadBench

theorem mul_two_pow_succ (x n : Nat) : x * 2 ^ (n + 1) = 2 * (x * 2 ^ n) := by
  rw [Nat.pow_succ']
  exact Nat.mul_left_comm x 2 (2 ^ n)

namespace Backoff
variable {b : Backoff} {initial floor limit d : Span} {m n : Nat}

theorem nanos_advance_floorJump :
    ((floorJump initial floor).advance d).nanos =
      max (min (2 * d.nanos) Span.maxNanos) floor.nanos := by
  simp [advance, floorJump]

theorem nanos_advance_exponential :
    ((exponential initial limit).advance d).nanos =
      min (min (2 * d.nanos) Span.maxNanos) limit.nanos := by
  simp [advance, exponential]

theorem nanos_delay_floorJump (initial floor : Span) (n : Nat) :
    ((floorJump initial floor).delay (n + 1)).nanos =
      min Span.maxNanos (max (initial.nanos * 2 ^ (n + 1)) (floor.nanos * 2 ^ n)) := by
  have hfloor := floor.nanos_le
  induction n with
  | zero =>
    rw [delay, nanos_advance_floorJump]
    change max (min (2 * initial.nanos) Span.maxNanos) floor.nanos = _
    omega
  | succ n ih =>
    -- the doubled floor is above the floor
    have hle : floor.nanos ≤ floor.nanos * 2 ^ n := Nat.le_mul_of_pos_right _ (Nat.two_pow_pos n)
    rw [delay, nanos_advance_floorJump, ih, mul_two_pow_succ initial.nanos (n + 1),
      mul_two_pow_succ floor.nanos n]
    omega

theorem nanos_delay_exponential (initial limit : Span) (n : Nat) :
    ((exponential initial limit).delay (n + 1)).nanos =
      min limit.nanos (initial.nanos * 2 ^ (n + 1)) := by
  have hlimit := limit.nanos_le
  induction n with
  | zero =>
    rw [delay, nanos_advance_exponential]
    change min (min (2 * initial.nanos) Span.maxNanos) limit.nanos = _
    omega
  | succ n ih =>
    rw [delay, nanos_advance_exponential, ih, mul_two_pow_succ initial.nanos (n + 1)]
    omega

theorem floorJump_mono (initial floor : Span) :
    Monotone fun n => ((floorJump initial floor).delay n).nanos := by
  refine monotone_nat_of_le_succ fun n => ?_
  have hmax := ((floorJump initial floor).delay n).nanos_le
  rw [delay, nanos_advance_floorJump]
  omega

theorem exponential_mono (hle : initial.nanos ≤ limit.nanos) :
    Monotone fun n => ((exponential initial limit).delay n).nanos := by
  refine monotone_nat_of_le_succ fun n => ?_
  have hmax := ((exponential initial limit).delay n).nanos_le
  have hlimit : ((exponential initial limit).delay n).nanos ≤ limit.nanos := by
    cases n with
    | zero => exact hle
    | succ n => exact (nanos_delay_exponential initial limit n).trans_le (Nat.min_le_left ..)
  rw [delay, nanos_advance_exponential]
  omega

/-! ### Saturation -/

/-- What doubling leads to in the end. -/
def longest (b : Backoff) : Nat :=
  match b.growth with
  | .floorJump _ => Span.maxNanos
  | .exponential limit => limit.nanos

theorem advance_le_longest (b : Backoff) (d : Span) : (b.advance d).nanos ≤ b.longest := by
  unfold advance longest
  cases b.growth with
  | floorJump floor => exact Span.nanos_le _
  | exponential limit =>
    rw [Span.nanos_shorter]
    exact Nat.min_le_right ..

/-- Once it is there, or has been held at the longest span, no delay is shorter again. -/
theorem advance_eq_longest (h : Span.maxNanos ≤ 2 * d.nanos ∨ d.nanos = b.longest) :
    (b.advance d).nanos = b.longest := by
  unfold longest at h ⊢
  unfold advance
  cases hb : b.growth with
  | floorJump floor =>
    have hfloor := floor.nanos_le
    simp only [hb] at h ⊢
    rw [Span.nanos_longer, Span.nanos_double]
    omega
  | exponential limit =>
    have hlimit := limit.nanos_le
    simp only [hb] at h ⊢
    rw [Span.nanos_shorter, Span.nanos_double]
    omega

theorem delay_eq_longest (h : Span.maxNanos ≤ 2 * (b.delay n).nanos) (hlt : n < m) :
    (b.delay m).nanos = b.longest := by
  induction m, hlt using Nat.le_induction with
  | base => exact advance_eq_longest (.inl h)
  | succ m hlt ih => exact advance_eq_longest (.inr ih)

/-! ### Sequences -/

/-- What is asked of some sequences: one more of them, or the next delay of one. -/
inductive Call where
  | start (b : Backoff)
  | next (i : Nat)
  deriving DecidableEq

namespace Sequence
variable {q : Sequence} {qs : List Sequence} {i : Nat}

theorem delays_delay (b : Backoff) (k n : Nat) :
    delays ⟨b, b.delay k⟩ n = (List.range n).map fun i => b.delay (k + i) := by
  induction n generalizing k with
  | zero => rfl
  | succ n ih =>
    have hrest : delays ⟨b, b.delay (k + 1)⟩ n = (List.range n).map fun i =>
      b.delay (k + (i + 1)) := by
      simp only [ih, Nat.add_assoc, Nat.add_comm 1]
    rw [List.range_succ_eq_map, List.map_cons, List.map_map]
    exact congrArg (b.delay k :: ·) hrest

theorem delays_start (b : Backoff) (n : Nat) : (start b).delays n = (List.range n).map b.delay := by
  have hdelays := delays_delay b 0 n
  simp only [Nat.zero_add] at hdelays
  exact hdelays

def after (qs : List Sequence) : Call → List Sequence
  | .start b => qs ++ [start b]
  | .next i => qs.modify i advance

def answer (i : Nat) (qs : List Sequence) : Call → List Span
  | .start _ => []
  | .next j => if j = i then (qs[i]?.map Sequence.next).toList else []

/-- The delays of one of the sequences, in the order in which the calls have handed them out. -/
def answers (i : Nat) : List Sequence → List Call → List Span
  | _, [] => []
  | qs, c :: calls => answer i qs c ++ answers i (after qs c) calls

/-- However the calls for the others go, a sequence hands out what it would hand out alone. -/
theorem answers_eq (hq : qs[i]? = some q) (calls : List Call) :
    answers i qs calls = q.delays (calls.count (.next i)) := by
  induction calls generalizing qs q with
  | nil => rfl
  | cons c calls ih =>
    cases c with
    | start b =>
      have hlater : (after qs (.start b))[i]? = some q := by
        rw [after, List.getElem?_append_left (List.getElem?_eq_some_iff.mp hq).1, hq]
      rw [answers, answer, List.nil_append, ih hlater, List.count_cons_of_ne (by simp)]
    | next j =>
      rw [answers, answer]
      by_cases hj : j = i
      · subst hj
        have hlater : (after qs (.next j))[j]? = some q.advance := by
          rw [after, List.getElem?_modify_eq, hq]
          rfl
        rw [if_pos rfl, hq, ih hlater, List.count_cons_self]
        rfl
      · have hlater : (after qs (.next j))[i]? = some q := by
          rw [after, List.getElem?_modify_ne _ _ hj, hq]
        rw [if_neg hj, List.nil_append, ih hlater, List.count_cons_of_ne (by simpa using hj)]

end Sequence

/-- The schedules of the two policies. -/
structure Scheduled (initial floor limit : Span) : Prop where
  floorJump : ∀ n, ((floorJump initial floor).delay n).nanos =
    if n = 0 then initial.nanos
      else min Span.maxNanos (max (initial.nanos * 2 ^ n) (floor.nanos * 2 ^ (n - 1)))
  exponential : ∀ n, ((exponential initial limit).delay n).nanos =
    if n = 0 then initial.nanos else min limit.nanos (initial.nanos * 2 ^ n)
  floorJump_mono : Monotone fun n => ((Backoff.floorJump initial floor).delay n).nanos
  exponential_mono : initial.nanos ≤ limit.nanos →
    Monotone fun n => ((Backoff.exponential initial limit).delay n).nanos
  exponential_le : ∀ n, ((Backoff.exponential initial limit).delay n).nanos ≤
    max initial.nanos limit.nanos
  /-- From where a doubling stops at the longest span, no delay is shorter than any
  that doubling has led to. -/
  saturated : ∀ (b : Backoff) (n m k : Nat),
    Span.maxNanos ≤ 2 * (b.delay n).nanos → n < m → 0 < k → (b.delay k).nanos ≤ (b.delay m).nanos
  /-- A sequence hands out the delays of its policy, whichever sequences are in progress when it
  starts, and whatever is asked of them, or started, later. -/
  apart : ∀ (b : Backoff) (qs : List Sequence) (calls : List Call),
    Sequence.answers qs.length (Sequence.after qs (.start b)) calls =
      (List.range (calls.count (.next qs.length))).map b.delay

theorem scheduled (initial floor limit : Span) : Scheduled initial floor limit where
  floorJump n := by
    cases n with
    | zero => rfl
    | succ n => exact nanos_delay_floorJump initial floor n
  exponential n := by
    cases n with
    | zero => rfl
    | succ n => exact nanos_delay_exponential initial limit n
  floorJump_mono := Backoff.floorJump_mono initial floor
  exponential_mono := Backoff.exponential_mono
  exponential_le n := by
    cases n with
    | zero => exact Nat.le_max_left ..
    | succ n =>
      rw [nanos_delay_exponential]
      omega
  saturated b n m k h hlt hk := by
    obtain ⟨k, rfl⟩ := Nat.exists_eq_succ_of_ne_zero hk.ne'
    rw [delay_eq_longest h hlt]
    exact advance_le_longest b _
  apart b qs calls := by
    have hstart : (Sequence.after qs (.start b))[qs.length]? = some (.start b) :=
      List.getElem?_concat_length
    rw [Sequence.answers_eq hstart, Sequence.delays_start]

/-- Two sequences of one policy that take turns: one millisecond each, and
1024 milliseconds each. -/
example :
    Sequence.answers 1 [] [.start .standard, .next 0, .start .standard, .next 1, .next 0, .next 1] =
    [.ofMillis 1, .ofMillis 1024] := by decide +kernel

end Backoff
end LoadBench
