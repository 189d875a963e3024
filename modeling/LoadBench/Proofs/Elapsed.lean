import LoadBench.Proofs.Accounting
import LoadBench.Proofs.Reservoir
import Mathlib.Algebra.Order.BigOperators.Group.List

/-!
# What the samples account for

Under a clock that never runs backward the timed batches of a measurement lie one after the other
inside of its window. A sample is what one of them took, divided among its operations and rounded
down, so all samples together never account for more time than has elapsed
(`Measurement.Timed.within_elapsed`): not when some of them have been thinned out, nor when the last
batch was given up.
-/

namespace LoadBench

theorem Samples.sum_eq (s : Samples) : s.sum = s.toList.sum := by
  rw [sum, toList, List.sum_eq_foldl_nat, Array.foldl_toList]

namespace Sampler

theorem sublist_add (r : Sampler) (x : Nat) :
    (r.add x).samples.toList.Sublist (r.samples.toList ++ [x]) := by
  cases h : r.thins with
  | true =>
    rw [add_of_thins h, Samples.toList_thin, Samples.toList_add]
    exact everySecond_sublist _
  | false =>
    rw [add_of_not_thins h, Samples.toList_add]

/-- Whatever the target, a sampler holds nothing that was not recorded. -/
theorem History.sublist_recording (target : Nat) (mask : UInt32) (xs : List Nat) :
    (recording target mask xs).sampler.samples.toList.Sublist xs := by
  induction xs using List.reverseRecOn with
  | nil => exact List.Sublist.refl []
  | append_singleton xs x ih =>
    rw [recording_append]
    exact (sublist_add _ x).trans (ih.append (List.Sublist.refl [x]))

end Sampler

namespace Measurement
open Sampler.History (recording sublist_recording)

/-- The way of a loop under a clock that never runs backward and only shows representable instants:
the last reading, the batches completed, and where the measurement stands. The memory may be
anything at every step. -/
inductive Timed (s : Measurement) (l₀ : Loop) : Nat → List Batch → Stand Point Tally → Prop where
  | start : Timed s l₀ l₀.began [] (.point (.beginBatch l₀))
  | step {before now : Nat} {log : List Batch} {m m' : Memory} {p : Point} {t : Stand Point Tally}
      (ht : Timed s l₀ before log (.point p)) (hle : before ≤ now) (hlt : now < Span.instantLimit)
      (h : (s.step now m p).Yields m m' t) : Timed s l₀ now (log ++ p.completes s now) t

variable {s : Measurement} {m m' : Memory} {before now began upTo target : Nat}
  {seed mask : UInt32} {l l₀ : Loop} {p : Point} {t : Stand Point Tally} {log : List Batch}

theorem Timed.course (ht : s.Timed l₀ now log t) : s.Course l₀ log t := by
  induction ht with
  | start => exact .start
  | step ht hle hlt h ih => exact .step ih h

/-- The time for which the samples recorded so far account. -/
def timeOf (s : Measurement) (log : List Batch) : Nat :=
  (recordings log).sum * s.iteration.benchmark.opsPerCall

theorem timeOf_append {log' : List Batch} :
    s.timeOf (log ++ log') = s.timeOf log + s.timeOf log' := by
  rw [timeOf, recordings, List.filterMap_append, List.sum_append, Nat.add_mul]
  rfl

/-- Up to an instant, a loop has spent at least the time that its samples account for. -/
structure Loop.Spent (l : Loop) (s : Measurement) (log : List Batch) (upTo now : Nat) : Prop where
  time : l.began + s.timeOf log ≤ upTo
  past : upTo ≤ now
  batches : l.batches = clipCount log.length

/-- When the batch in progress began if it is timed, and else the present. -/
def Loop.timedSince (l : Loop) (now : Nat) : Nat := l.timedFrom.getD now

theorem Loop.timedSince_mono (hle : before ≤ now) : l.timedSince before ≤ l.timedSince now := by
  unfold Loop.timedSince
  cases l.timedFrom with
  | none => exact hle
  | some from_ => exact Nat.le_refl from_

theorem Loop.timedSince_le (hle : before ≤ now) (h : l.timedSince before ≤ before) :
    l.timedSince now ≤ now := by
  unfold Loop.timedSince at h ⊢
  cases hf : l.timedFrom with
  | none => exact Nat.le_refl now
  | some from_ =>
    rw [hf] at h
    exact h.trans hle

/-- What is recorded of a batch is no more than the time since it began. -/
theorem timeOf_batch_le : s.timeOf [l.batch s now] ≤ now - l.timedSince now := by
  unfold Loop.timedSince
  cases hf : l.timedFrom with
  | none => simp [timeOf, recordings, Loop.batch, hf]
  | some from_ =>
    have hsample : clipCount (now - from_) /
        s.iteration.benchmark.opsPerCall * s.iteration.benchmark.opsPerCall ≤
        now - from_ := (Nat.div_mul_le_self ..).trans (Nat.min_le_left ..)
    simpa [timeOf, recordings, Loop.batch, hf] using hsample

namespace Loop.Spent

theorem mono {upTo' : Nat} (h : l.Spent s log upTo before) (hle : upTo ≤ upTo')
    (hnow : upTo' ≤ now) :
    l.Spent s log upTo' now := ⟨h.time.trans hle, hnow, h.batches⟩

theorem later (h : l.Spent s log before before) (hle : before ≤ now) : l.Spent s log now now :=
  h.mono hle (Nat.le_refl now)

theorem laterAmid (h : l.Spent s log (l.timedSince before) before) (hle : before ≤ now) :
    l.Spent s log (l.timedSince now) now := h.mono (timedSince_mono hle) (timedSince_le hle h.past)

/-- Whatever a batch in progress would have come to, what came before it has been spent. -/
theorem abandon (h : l.Spent s log (l.timedSince now) now) : l.Spent s log now now :=
  h.mono h.past (Nat.le_refl now)

theorem nextBatch (hm : s.mode = .sampleTime) (h : l.Spent s log now now) :
    (l.nextBatch s now).Spent s log ((l.nextBatch s now).timedSince now) now := by
  -- timed or not, it begins at this reading
  have hnow : (l.nextBatch s now).timedSince now = now := by
    rw [nextBatch_of_sampleTime hm, Loop.timedSince]
    cases l.sampler.picks (nextDraw l.draw) <;> rfl
  refine ⟨?_, hnow.le, batches_nextBatch.trans h.batches⟩
  rw [hnow, nextBatch_of_sampleTime hm]
  exact h.time

theorem completed (h : l.Spent s log (l.timedSince now) now) :
    (l.completed s now).Spent s (log ++ [l.batch s now]) now now := by
  have hbegan : (l.completed s now).began = l.began := by
    unfold Loop.completed
    split <;> rfl
  have hbatches : (l.completed s now).batches = clipCount (log ++ [l.batch s now]).length := by
    rw [batches_completed, h.batches, List.length_append, List.length_singleton]
    unfold clipCount
    omega
  refine ⟨?_, Nat.le_refl now, hbatches⟩
  have htime := h.time
  have hpast := h.past
  have hbatch : s.timeOf [l.batch s now] ≤ now - l.timedSince now := timeOf_batch_le
  rw [hbegan, timeOf_append]
  omega

end Loop.Spent

/-- What was recorded for a tally fits into the time that has elapsed. -/
structure Fits (s : Measurement) (log : List Batch) (r : Tally) : Prop where
  time : s.timeOf log ≤ r.elapsed.nanos
  batches : r.windowOps = clipCount log.length

theorem Loop.Spent.result (h : l.Spent s log now now) (hlt : now < Span.instantLimit)
    (spoiled : Bool) :
    s.Fits log (l.result now spoiled) where
  time := by
    have htime := h.time
    -- a window between two instants is never longer than the longest span
    have hlimit : Span.instantLimit ≤ Span.maxNanos := by decide
    rw [Loop.result, Span.between, Span.nanos_ofNanos]
    omega
  batches := h.batches

def Point.Spent (s : Measurement) (log : List Batch) (now : Nat) : Point → Prop
  | .start => False
  | .beginBatch l | .checkDone l | .stop l _ => l.Spent s log now now
  | .checkSpoiled l _ | .work l _ | .endBatch l => l.Spent s log (l.timedSince now) now
  | .widenMask _ r => s.Fits log r

def Spent (s : Measurement) (log : List Batch) (now : Nat) : Stand Point Tally → Prop
  | .point p => p.Spent s log now
  | .ended o => ∀ r, o = .ok r → s.Fits log r

theorem spent_of_yields (hm : s.mode = .sampleTime) (hle : before ≤ now)
    (hlt : now < Span.instantLimit) (hp : p.Spent s log before)
    (h : (s.step now m p).Yields m m' t) :
    s.Spent (log ++ p.completes s now) now t := by
  cases p with
  | start => exact hp.elim
  | beginBatch l =>
    obtain ⟨rfl, rfl⟩ := h
    simp only [Point.completes, List.append_nil]
    have hl : l.Spent s log before before := hp
    exact (hl.later hle).nextBatch hm
  | checkSpoiled l left =>
    simp only [Point.completes, List.append_nil]
    have hl : l.Spent s log (l.timedSince now) now := Loop.Spent.laterAmid hp hle
    simp only [step] at h
    split at h
    · obtain ⟨rfl, rfl⟩ := h
      exact hl.abandon
    · obtain ⟨rfl, rfl⟩ := h
      exact hl
  | work l left =>
    simp only [Point.completes, List.append_nil]
    have hl : l.Spent s log (l.timedSince now) now := Loop.Spent.laterAmid hp hle
    obtain ⟨rfl, r, hr, rfl⟩ := h
    cases r with
    | crashed text =>
      intro r hr
      cases hr
    | refused problem => exact hr.elim
    | returned v =>
      change s.Spent log now (.point (if left ≤ 1 then .endBatch l else .checkSpoiled l (left - 1)))
      split <;> exact hl
  | endBatch l =>
    obtain ⟨rfl, rfl⟩ := h
    have hl : l.Spent s log (l.timedSince now) now := Loop.Spent.laterAmid hp hle
    rw [if_neg (by simp [hm])]
    exact hl.completed
  | checkDone l =>
    simp only [Point.completes, List.append_nil]
    have hl : l.Spent s log now now := Loop.Spent.later hp hle
    obtain ⟨rfl, rfl⟩ := h
    split <;> exact hl
  | stop l spoiled =>
    simp only [Point.completes, List.append_nil]
    have hl : l.Spent s log now now := Loop.Spent.later hp hle
    simp only [step, hm, if_true] at h
    obtain ⟨rfl, rfl⟩ := h
    exact hl.result hlt spoiled
  | widenMask l r =>
    simp only [Point.completes, List.append_nil]
    obtain ⟨rfl, rfl⟩ := h
    intro r' hr
    cases hr
    exact hp

theorem Timed.spent (hm : s.mode = .sampleTime)
    (ht : s.Timed (.opening began seed target mask) now log t) :
    s.Spent log now t := by
  induction ht with
  | start => exact ⟨by simp [timeOf, recordings, Loop.opening], Nat.le_refl _, rfl⟩
  | step ht hle hlt h ih => exact spent_of_yields hm hle hlt ih h

/-- The samples that a measurement reports account for no more time than it took, and there are no
more of them than batches completed. -/
theorem Timed.within_elapsed (hm : s.mode = .sampleTime)
    (ht : s.Timed (.opening began seed target mask) now log t) :
    ∀ r, t = .ended (.ok r) →
      r.samples.sum * s.iteration.benchmark.opsPerCall ≤ r.elapsed.nanos ∧
        r.samples.size ≤ log.length ∧ r.windowOps = clipCount log.length := by
  intro r hr
  subst hr
  have hspent : s.Fits log r := ht.spent hm r rfl
  obtain ⟨sampler, hrecorded, hsamples⟩ := ht.course.records r rfl
  have hsub : r.samples.toList.Sublist (recordings log) := by
    rw [hsamples, hrecorded.sampler]
    exact sublist_recording target mask _
  refine ⟨?_, ?_, hspent.batches⟩
  · have hsum : r.samples.sum ≤ (recordings log).sum := by
      rw [Samples.sum_eq]
      exact hsub.sum_le_sum fun _ _ => Nat.zero_le _
    exact (Nat.mul_le_mul_right _ hsum).trans hspent.time
  · rw [Samples.size_eq_length]
    exact hsub.length_le.trans length_recordings_le

theorem Timed.follow (ht : s.Timed l₀ before log t) (m : Memory) (readings : List Nat)
    (hr : (before :: readings).IsChain (· ≤ ·)) (hlt : ∀ now ∈ readings, now < Span.instantLimit) :
    ∃ now ∈ before :: readings, s.Timed l₀ now (s.follow m readings log t).1
      (s.follow m readings log t).2 := by
  fun_induction Measurement.follow s m readings log t generalizing before with
  | case1 now rest log p m' notes t hv ih =>
    obtain ⟨hle, hrest⟩ := List.isChain_cons_cons.mp hr
    obtain ⟨hnow, hlt⟩ := List.forall_mem_cons.mp hlt
    obtain ⟨last, hlast, ht⟩ :=
      ih (ht.step (m := m) hle hnow (by rw [hv]; exact ⟨rfl, rfl⟩)) hrest hlt
    exact ⟨last, List.mem_cons_of_mem _ hlast, ht⟩
  | case2 now rest log p q k hv ih =>
    have hq : q.Admits (.returned 0) := by cases q <;> trivial
    obtain ⟨hle, hrest⟩ := List.isChain_cons_cons.mp hr
    obtain ⟨hnow, hlt⟩ := List.forall_mem_cons.mp hlt
    obtain ⟨last, hlast, ht⟩ :=
      ih (ht.step (m := m) hle hnow (by rw [hv]; exact ⟨rfl, _, hq, rfl⟩)) hrest hlt
    exact ⟨last, List.mem_cons_of_mem _ hlast, ht⟩
  | case3 | case4 => exact ⟨before, List.mem_cons_self, ht⟩

/-- Two thinnings have left two of four samples, and the batch that the spoiler came
upon is in none of them. -/
theorem within_elapsed_spoiled :
    let s : Measurement := ⟨{ Execution.duet.iteration 0 0 with
      batch := ⟨2, by decide, by decide⟩
      benchmark := { Benchmark.plain "bench" .sampleTime with
        opsPerCall := ⟨3, by decide, by decide⟩ } }, .sampleTime⟩
    let undisturbed :=
      s.follow {} ((List.range 45).map (7 * ·)) [] (.point (.beginBatch (.opening 0 7 2 0)))
    let spoiler := ({} : Memory).signal s.iteration Signals.spoil
    let spoiled := s.follow spoiler [400, 410, 420] undisturbed.1 undisturbed.2
    let r : Tally :=
      { windowOps := 6, elapsed := .ofNanos 410, samples := .ofList [11, 11], spoiled := true }
    spoiled.2.outcome? = some (.ok r) ∧ thinnings spoiled.1 = 2 ∧ spoiled.1.length = 6 ∧
      r.samples.sum * s.iteration.benchmark.opsPerCall ≤ r.elapsed.nanos ∧
      r.samples.size ≤ spoiled.1.length ∧ r.windowOps = clipCount spoiled.1.length := by
  intro s undisturbed spoiler spoiled r
  have hr : spoiled.2 = .ended (.ok r) := by
    have hended : spoiled.2.outcome? = some (.ok r) := by decide +kernel
    cases ht : spoiled.2 with
    | point p => simp [ht, Stand.outcome?] at hended
    | ended o => simpa [ht, Stand.outcome?] using hended
  have hstart : s.Timed (.opening 0 7 2 0) 0 [] (.point (.beginBatch (.opening 0 7 2 0))) := .start
  obtain ⟨now, hnow, ht⟩ :=
    hstart.follow {} ((List.range 45).map (7 * ·)) (by decide +kernel) (by decide +kernel)
  have hlast : now ≤ 400 :=
    (by decide +kernel : ∀ now ∈ 0 :: (List.range 45).map (7 * ·), now ≤ 400) now hnow
  obtain ⟨_, -, ht⟩ := ht.follow spoiler [400, 410, 420] (by simp [hlast]) (by decide +kernel)
  exact ⟨by rw [hr]; rfl, by decide +kernel, by decide +kernel, ht.within_elapsed rfl r hr⟩

end Measurement
end LoadBench
