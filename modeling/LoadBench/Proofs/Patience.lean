import LoadBench.Polling
import Mathlib.Algebra.Order.Floor.Div

/-!
# How long a poll lasts

A poll ends with the first evaluation that holds or finds the deadline past. Where a pause takes its
millisecond and evaluations do not turn the clock back, the deadline is past after as many pauses as
milliseconds fit into the timeout, rounded up, so that the poll ends whatever its condition does
(`Surroundings.poll_settles`).

Evaluations are told apart by how many came before them.
-/

namespace LoadBench.Surroundings

/-- When the evaluation after `k` others begins, if none of them ends the poll. -/
def begun (w : Surroundings) (now : Nat) : Nat → Nat
  | 0 => now
  | k + 1 => w.pause (w.evaluate (k + 1) (w.begun now k)).2

def evaluation (w : Surroundings) (now k : Nat) : Bool × Nat := w.evaluate (k + 1) (w.begun now k)

/-- The evaluation after `k` others ends the poll, if it has not ended before. -/
def Stops (w : Surroundings) (deadline now k : Nat) : Prop :=
  (w.evaluation now k).1 = true ∨ deadline ≤ (w.evaluation now k).2

instance (w : Surroundings) (deadline now k : Nat) : Decidable (w.Stops deadline now k) :=
  inferInstanceAs (Decidable (_ ∨ _))

def stopped (w : Surroundings) (now k : Nat) : Polled :=
  ⟨(w.evaluation now k).1, k + 1, (w.evaluation now k).2⟩

def attempts (timeout : Span) : Nat := timeout.nanos ⌈/⌉ pollInterval + 1

variable {w : Surroundings} {timeout : Span} {deadline now k last : Nat}

/-- As long as there is fuel, a poll goes on to the first evaluation that stops it. -/
theorem pollFrom_begun (hlast : w.Stops deadline now last)
    (hfirst : ∀ k < last, ¬ w.Stops deadline now k) (fuel : Nat) (hk : k ≤ last) :
    pollFrom w (some deadline) fuel (k + 1) (w.begun now k) =
      if last < k + fuel then some (w.stopped now last) else none := by
  induction fuel generalizing k with
  | zero => rw [pollFrom, if_neg (by omega)]
  | succ fuel ih =>
    by_cases hstop : w.Stops deadline now k
    · obtain rfl : k = last := by
        by_contra hne
        exact hfirst k (by omega) hstop
      rw [if_pos (by omega)]
      cases he : w.evaluate (k + 1) (w.begun now k) with
      | mk held later =>
        have hev : w.evaluation now k = (held, later) := he
        simp only [pollFrom, he, stopped, hev]
        cases held with
        | true => rfl
        | false =>
          have hpast : deadline ≤ later := by simpa [Stops, hev] using hstop
          simp [isPast, hpast]
    · have hlt : k < last := by
        rcases Nat.lt_or_eq_of_le hk with hlt | rfl
        · exact hlt
        · exact absurd hlast hstop
      have hnext := ih (k := k + 1) hlt
      rw [show k + 1 + fuel = k + (fuel + 1) by omega] at hnext
      rw [← hnext]
      cases he : w.evaluate (k + 1) (w.begun now k) with
      | mk held later =>
        have hev : w.evaluation now k = (held, later) := he
        obtain ⟨rfl, hpast⟩ : held = false ∧ ¬ deadline ≤ later := by simpa [Stops, hev] using hstop
        simp [pollFrom, he, isPast, hpast, begun]

/-! ### Under a steady clock -/

/-- A pause takes its millisecond, and no evaluation turns the clock back. -/
structure Steady (w : Surroundings) : Prop where
  evaluate : ∀ n now, now ≤ (w.evaluate n now).2
  pause : ∀ now, w.pause now = now + pollInterval

theorem Steady.begun_le (hw : w.Steady) (now k : Nat) : now + k * pollInterval ≤ w.begun now k := by
  induction k with
  | zero => rw [begun, Nat.zero_mul, Nat.add_zero]
  | succ k ih =>
    have hend := hw.evaluate (k + 1) (w.begun now k)
    rw [begun, hw.pause, Nat.succ_mul]
    omega

theorem Steady.begun_eq (hw : w.Steady) (hfree : ∀ n now, (w.evaluate n now).2 = now)
    (now k : Nat) :
    w.begun now k = now + k * pollInterval := by
  induction k with
  | zero => rw [begun, Nat.zero_mul, Nat.add_zero]
  | succ k ih => rw [begun, hw.pause, hfree, ih, Nat.succ_mul, Nat.add_assoc]

theorem timeout_le_iff : timeout.nanos ≤ k * pollInterval ↔ attempts timeout ≤ k + 1 := by
  rw [attempts, Nat.add_le_add_iff_right, ceilDiv_le_iff_le_mul (by decide), Nat.mul_comm]

theorem Steady.stops_of_begun (hw : w.Steady) (h : deadline ≤ w.begun now k) :
    w.Stops deadline now k :=
  .inr (h.trans (hw.evaluate ..))

/-- With the last attempt the deadline has come. -/
theorem Steady.exists_stops (hw : w.Steady) (timeout : Span) (now : Nat) :
    ∃ k < attempts timeout, w.Stops (now + timeout.nanos) now k := by
  obtain ⟨k, hk⟩ : ∃ k, attempts timeout = k + 1 := ⟨_, rfl⟩
  have htimeout : timeout.nanos ≤ k * pollInterval := timeout_le_iff.mpr hk.le
  exact ⟨k, by omega, hw.stops_of_begun ((Nat.add_le_add_left htimeout now).trans (hw.begun_le ..))⟩

theorem Steady.exists_first_stop (hw : w.Steady) (timeout : Span) (now : Nat) :
    ∃ last < attempts timeout, w.Stops (now + timeout.nanos) now last ∧
      ∀ k < last, ¬ w.Stops (now + timeout.nanos) now k := by
  obtain ⟨k, hk, hstop⟩ := hw.exists_stops timeout now
  have hex : ∃ k, w.Stops (now + timeout.nanos) now k := ⟨k, hstop⟩
  exact ⟨Nat.find hex, (Nat.find_min' hex hstop).trans_lt hk, Nat.find_spec hex,
    fun _ => Nat.find_min hex⟩

/-- What is known of a poll that has ended. -/
structure Settled (w : Surroundings) (now deadline : Nat) (r : Polled) : Prop where
  /-- It has made an evaluation, and answers what the last one came to. -/
  last : ∃ k, r.evaluations = k + 1 ∧ w.evaluation now k = (r.held, r.clock)
  first : ∀ k, k + 1 < r.evaluations → (w.evaluation now k).1 = false
  late : r.held = false → deadline ≤ r.clock
  /-- Only the last evaluation can have begun when the deadline had come. -/
  once : ∀ k < r.evaluations, deadline ≤ w.begun now k → k + 1 = r.evaluations

theorem Steady.settled (hw : w.Steady) (hlast : w.Stops deadline now last)
    (hfirst : ∀ k < last, ¬ w.Stops deadline now k) :
    w.Settled now deadline (w.stopped now last) where
  last := ⟨last, rfl, rfl⟩
  first k hk := Bool.eq_false_iff.mpr fun hheld => hfirst k (Nat.lt_of_succ_lt_succ hk) (.inl hheld)
  late hheld := hlast.resolve_left (Bool.eq_false_iff.mp hheld)
  once k hk hbegun := by
    rcases Nat.lt_or_eq_of_le (Nat.le_of_lt_succ hk) with hlt | rfl
    · exact absurd (hw.stops_of_begun hbegun) (hfirst k hlt)
    · rfl

/-- If evaluations take no time, a poll that gives up has made all attempts. -/
theorem Steady.held_iff (hw : w.Steady) (hfree : ∀ n t, (w.evaluate n t).2 = t)
    (hle : last < attempts timeout) (hlast : w.Stops (now + timeout.nanos) now last)
    (hfirst : ∀ k < last, ¬ w.Stops (now + timeout.nanos) now k) :
    (w.evaluation now last).1 = true ↔ ∃ k < attempts timeout, (w.evaluation now k).1 = true := by
  refine ⟨fun hheld => ⟨last, hle, hheld⟩, ?_⟩
  rintro ⟨k, hk, hheld⟩
  rcases hlast with hdone | hpast
  · exact hdone
  · have htimeout : timeout.nanos ≤ last * pollInterval := by
      rw [evaluation, hfree, hw.begun_eq hfree] at hpast
      omega
    have hattempts : attempts timeout ≤ last + 1 := timeout_le_iff.mp htimeout
    obtain rfl : k = last := by
      by_contra hne
      exact hfirst k (by omega) (.inl hheld)
    exact hheld

/-- A poll under a steady clock ends, given fuel for its evaluations, of which there are no more
than attempts. If they take no time, it gives up only when all attempts have failed. -/
theorem poll_settles (hw : w.Steady) (hd : timeout.after? now = some deadline) :
    ∃ r, (∀ fuel, pollUntil w timeout fuel now = if r.evaluations ≤ fuel then some r else none) ∧
      r.evaluations ≤ attempts timeout ∧ w.Settled now deadline r ∧
      ((∀ n t, (w.evaluate n t).2 = t) →
        (r.held = true ↔ ∃ k < attempts timeout,
          (w.evaluate (k + 1) (now + k * pollInterval)).1 = true)) := by
  obtain ⟨-, rfl⟩ := Span.after?_eq_some_iff.mp hd
  obtain ⟨last, hle, hlast, hfirst⟩ := hw.exists_first_stop timeout now
  refine ⟨w.stopped now last, fun fuel => ?_, hle, hw.settled hlast hfirst, fun hfree => ?_⟩
  · have hpoll := pollFrom_begun hlast hfirst fuel (Nat.zero_le last)
    rw [Nat.zero_add, Nat.zero_add] at hpoll
    rw [pollUntil, hd]
    exact hpoll
  · have hheld := hw.held_iff hfree hle hlast hfirst
    simp only [evaluation, hw.begun_eq hfree] at hheld
    rw [stopped, evaluation, hw.begun_eq hfree]
    exact hheld

/-- A condition that holds with the last of three attempts, at the very deadline. -/
theorem poll_settles_prompt :
    let w : Surroundings := ⟨fun n now => (n = 3, now), fun now => now + pollInterval⟩
    let r : Polled := ⟨true, 3, 2000000⟩
    w.Steady ∧ (Span.ofMillis 2).after? 0 = some 2000000 ∧ attempts (.ofMillis 2) = 3 ∧
      pollUntil w (.ofMillis 2) 3 0 = some r ∧ w.Settled 0 2000000 r ∧
      ∃ k < attempts (.ofMillis 2), (w.evaluate (k + 1) (0 + k * pollInterval)).1 = true := by
  intro w r
  have hw : w.Steady := ⟨fun _ now => Nat.le_refl now, fun _ => rfl⟩
  have hd : (Span.ofMillis 2).after? 0 = some 2000000 := by decide
  have hattempts : attempts (.ofMillis 2) = 3 := by decide
  have hpoll : pollUntil w (.ofMillis 2) 3 0 = some r := by decide
  obtain ⟨r', hfuel, hle, hsettled, hheld⟩ := poll_settles hw hd
  have hr : some r = some r' := by rw [← hpoll, hfuel 3, if_pos (hattempts ▸ hle)]
  obtain rfl : r = r' := Option.some.inj hr
  exact ⟨hw, hd, hattempts, hpoll, hsettled, (hheld fun _ _ => rfl).mp rfl⟩

end LoadBench.Surroundings
