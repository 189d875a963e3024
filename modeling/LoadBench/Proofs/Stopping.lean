import LoadBench.Proofs.Accounting
import LoadBench.Proofs.Reservoir
import LoadBench.Proofs.Termination
import Mathlib.Data.ENat.Lattice

/-!
# Where a measurement stops

A measurement looks at the spoiler before each call, and at the end of its window after each batch;
a single shot ends with its batch. So it makes as many calls as it takes until one of the two has
come, and no more, and it was spoiled just if the spoiler came strictly before
(`Measurement.Stint.stops_exactly`): whoever raises both in one call that ends a batch has not
spoiled it. The batch that is given up leaves no trace.

What a measurement finds raised depends on the calls made so far, as if the workload raised it.
-/

namespace LoadBench

/-- The first time that something holds, if there is one. -/
noncomputable def firstTime (P : Nat → Prop) : ℕ∞ := ⨅ n, ⨅ _ : P n, (n : ℕ∞)

section
variable {P : Nat → Prop} {n : Nat}

theorem firstTime_le (h : P n) : firstTime P ≤ n := iInf₂_le n h

theorem le_firstTime (h : ∀ k, P k → n ≤ k) : (n : ℕ∞) ≤ firstTime P :=
  le_iInf₂ fun k hk => Nat.cast_le.mpr (h k hk)

theorem firstTime_eq (h : (n : ℕ∞) ≤ firstTime P) (hn : P n) : firstTime P = n :=
  le_antisymm (firstTime_le hn) h

theorem succ_le_firstTime (h : (n : ℕ∞) < firstTime P) : ((n + 1 : Nat) : ℕ∞) ≤ firstTime P :=
  Order.add_one_le_of_lt h

theorem lt_firstTime (h : (n : ℕ∞) ≤ firstTime P) (hn : ¬ P n) : (n : ℕ∞) < firstTime P := by
  have hsucc : ((n + 1 : Nat) : ℕ∞) ≤ firstTime P := by
    refine le_firstTime fun k hk => Nat.succ_le_of_lt (lt_of_le_of_ne ?_ ?_)
    · exact Nat.cast_le.mp (h.trans (firstTime_le hk))
    · rintro rfl
      exact hn hk
  exact lt_of_lt_of_le (Nat.cast_lt.mpr n.lt_succ_self) hsucc

end

namespace Measurement

def Point.calls : Point → Nat
  | .work .. => 1
  | _ => 0

/-- The way of a measurement that always finds the signals as they are after the calls made so far:
the steps, the calls, the batches completed, and where it stands. -/
inductive Stint (s : Measurement) (signals : Nat → Signals) :
    Nat → Nat → List Batch → Stand Point Tally → Prop where
  | start : Stint s signals 0 0 [] (.point .start)
  | step {k n : Nat} {log : List Batch} {now : Nat} {m m' : Memory} {p : Point}
      {t : Stand Point Tally} (hs : Stint s signals k n log (.point p))
      (hm : m.signalsOf s.iteration = signals n)
      (h : (s.step now m p).Yields m m' t) :
      Stint s signals (k + 1) (n + p.calls) (log ++ p.completes s now) t

variable {s : Measurement} {signals : Nat → Signals} {k n left : Nat} {log : List Batch} {now : Nat}
  {m m' : Memory} {p : Point} {t : Stand Point Tally} {l : Loop}

/-- After how many calls the spoiler is up. -/
noncomputable def spoiledAt (signals : Nat → Signals) : ℕ∞ :=
  firstTime fun n => (signals n).spoiled = true

/-- A measurement that has made `n` calls would stop there, spoiled or not. -/
def Closes (s : Measurement) (signals : Nat → Signals) (n : Nat) : Prop :=
  match s.mode with
  | .throughput | .averageTime => 0 < n ∧ (signals n).done = true
  | .sampleTime => 0 < n ∧ s.iteration.batch.val ∣ n ∧ (signals n).done = true
  | .singleShot => n = s.iteration.batch

/-- After how many calls the measurement stops if it is not spoiled. -/
noncomputable def closedAt (s : Measurement) (signals : Nat → Signals) : ℕ∞ :=
  firstTime (s.Closes signals)

theorem Closes.whole (h : s.Closes signals n) : 0 < n ∧ s.batchSize.val ∣ n := by
  unfold Closes at h
  unfold batchSize
  cases hm : s.mode with
  | throughput | averageTime =>
    rw [hm] at h
    exact ⟨h.1, one_dvd n⟩
  | sampleTime =>
    rw [hm] at h
    exact ⟨h.1, h.2.1⟩
  | singleShot =>
    rw [hm] at h
    cases (h : n = s.iteration.batch.val)
    exact ⟨s.iteration.batch.pos, dvd_refl _⟩

theorem closes_iff (hm : s.mode ≠ .singleShot) (hpos : 0 < n) (hdvd : s.batchSize.val ∣ n) :
    s.Closes signals n ↔ (signals n).done = true := by
  unfold Closes
  unfold batchSize at hdvd
  split
  · exact and_iff_right hpos
  · exact and_iff_right hpos
  · rename_i hsample
    rw [hsample] at hdvd
    rw [and_iff_right hpos, and_iff_right hdvd]
  · contradiction

theorem closes_single (hm : s.mode = .singleShot) : s.Closes signals n ↔ n = s.batchSize := by
  simp only [Closes, batchSize, hm]

/-! ### The calls so far -/

/-- `n` calls leave this many of a batch, and none of them found the spoiler up. -/
structure Underway (s : Measurement) (signals : Nat → Signals) (n left : Nat)
    (log : List Batch) (l : Loop) :
    Prop where
  calls : n + left = (log.length + 1) * s.batchSize
  batches : l.batches = clipCount log.length
  unspoiled : (n : ℕ∞) ≤ spoiledAt signals
  unclosed : (n : ℕ∞) ≤ s.closedAt signals

/-- A measurement has made as many calls as it should. -/
structure Stopped (s : Measurement) (signals : Nat → Signals) (n : Nat) (log : List Batch)
    (spoiled : Bool) (ops : Nat) : Prop where
  calls : (n : ℕ∞) = min (spoiledAt signals) (s.closedAt signals)
  spoiled : spoiled = true ↔ spoiledAt signals < s.closedAt signals
  batches : log.length = n / s.batchSize
  ops : ops = clipCount log.length

/-- What a point says of the calls so far: between two batches, and inside one, the measurement
could not have stopped yet. -/
def Point.Placed (s : Measurement) (signals : Nat → Signals) (n : Nat) (log : List Batch) :
    Point → Prop
  | .start => n = 0 ∧ log = []
  | .beginBatch l => s.Underway signals n s.batchSize log l ∧ (n : ℕ∞) < s.closedAt signals
  | .checkSpoiled l left => s.Underway signals n left log l ∧ (n : ℕ∞) < s.closedAt signals ∧
      0 < left ∧ left ≤ s.batchSize
  | .work l left => s.Underway signals n left log l ∧ (n : ℕ∞) < s.closedAt signals ∧
      0 < left ∧ left ≤ s.batchSize ∧ (n : ℕ∞) < spoiledAt signals
  | .endBatch l => s.Underway signals n 0 log l
  | .checkDone l => s.mode ≠ .singleShot ∧ n = log.length * s.batchSize ∧ 0 < log.length ∧
      l.batches = clipCount log.length ∧ (n : ℕ∞) ≤ spoiledAt signals ∧
        (n : ℕ∞) ≤ s.closedAt signals
  | .stop l spoiled => s.Stopped signals n log spoiled l.batches
  | .widenMask _ r => s.Stopped signals n log r.spoiled r.windowOps

def Placed (s : Measurement) (signals : Nat → Signals) (n : Nat) (log : List Batch) :
    Stand Point Tally → Prop
  | .point p => p.Placed s signals n log
  | .ended (.ok r) => s.Stopped signals n log r.spoiled r.windowOps
  | .ended (.failed _) => False
  | .ended (.crashed _) => (n : ℕ∞) ≤ spoiledAt signals ∧ (n : ℕ∞) ≤ s.closedAt signals

/-- The spoiler ends a batch that still lacks calls. -/
theorem Underway.spoil (h : s.Underway signals n left log l) (hc : (n : ℕ∞) < s.closedAt signals)
    (hpos : 0 < left) (hle : left ≤ s.batchSize) (hs : (signals n).spoiled = true) :
    s.Stopped signals n log true l.batches := by
  have hat : spoiledAt signals = n := firstTime_eq h.unspoiled hs
  refine ⟨?_, ?_, ?_, h.batches⟩
  · rw [hat, min_eq_left hc.le]
  · rw [hat]
    exact iff_of_true rfl hc
  · have hcalls := h.calls
    rw [Nat.succ_mul] at hcalls
    exact (Nat.div_eq_of_lt_le (by omega) (by rw [Nat.succ_mul]; omega)).symm

theorem stopped_closed (hs : (n : ℕ∞) ≤ spoiledAt signals) (hc : s.closedAt signals = n)
    (hn : n = log.length * s.batchSize) {ops : Nat} (hops : ops = clipCount log.length) :
    s.Stopped signals n log false ops := by
  refine ⟨?_, ?_, ?_, hops⟩
  · rw [hc, min_eq_right hs]
  · rw [hc]
    exact iff_of_false Bool.false_ne_true hs.not_gt
  · rw [hn, Nat.mul_div_cancel _ s.batchSize.pos]

/-- A call that does not end its batch is none after which the measurement could stop. -/
theorem Underway.not_closes (h : s.Underway signals n left log l) (hpos : 0 < left)
    (hlt : left < s.batchSize) :
    ¬ s.Closes signals n := by
  intro hclose
  obtain ⟨q, rfl⟩ := hclose.whole.2
  have hcalls := h.calls
  rw [Nat.mul_comm (log.length + 1)] at hcalls
  have hdvd : s.batchSize.val ∣ left :=
    (Nat.dvd_add_right (Nat.dvd_mul_right ..)).mp (hcalls ▸ Nat.dvd_mul_right ..)
  exact absurd (Nat.le_of_dvd hpos hdvd) (by omega)

theorem placed_of_yields (h : (s.step now m p).Yields m m' t)
    (hm : m.signalsOf s.iteration = signals n) (hp : p.Placed s signals n log) :
    s.Placed signals (n + p.calls) (log ++ p.completes s now) t := by
  cases p with
  | start =>
    obtain ⟨rfl, rfl⟩ := h
    obtain ⟨rfl, rfl⟩ := hp
    have hunclosed : ¬ s.Closes signals 0 := fun hc => absurd hc.whole.1 (Nat.lt_irrefl 0)
    have hclosed : ((0 : Nat) : ℕ∞) < s.closedAt signals := lt_firstTime (by simp) hunclosed
    exact ⟨⟨by simp [Point.calls, Point.completes], rfl, by simp [Point.calls], hclosed.le⟩,
      hclosed⟩
  | beginBatch l =>
    obtain ⟨rfl, rfl⟩ := h
    simp only [Point.calls, Point.completes, List.append_nil, Nat.add_zero]
    obtain ⟨hl, hclosed⟩ := hp
    exact ⟨{ hl with batches := batches_nextBatch.trans hl.batches }, hclosed, s.batchSize.pos,
      Nat.le_refl _⟩
  | checkSpoiled l left =>
    simp only [Point.calls, Point.completes, List.append_nil, Nat.add_zero]
    obtain ⟨hl, hclosed, hpos, hle⟩ := hp
    simp only [step, hm] at h
    split at h
    · rename_i hs
      obtain ⟨rfl, rfl⟩ := h
      exact hl.spoil hclosed hpos hle hs
    · rename_i hs
      obtain ⟨rfl, rfl⟩ := h
      exact ⟨hl, hclosed, hpos, hle, lt_firstTime hl.unspoiled hs⟩
  | work l left =>
    simp only [Point.calls, Point.completes, List.append_nil]
    obtain ⟨hl, hclosed, hpos, hle, hspoiled⟩ := hp
    obtain ⟨rfl, r, hr, rfl⟩ := h
    cases r with
    | crashed text => exact ⟨succ_le_firstTime hspoiled, succ_le_firstTime hclosed⟩
    | refused problem => exact hr.elim
    | returned v =>
      have hcalls := hl.calls
      have hnext : s.Underway signals (n + 1) (left - 1) log l :=
        ⟨by omega, hl.batches, succ_le_firstTime hspoiled, succ_le_firstTime hclosed⟩
      change s.Placed signals (n + 1) log
        (.point (if left ≤ 1 then .endBatch l else .checkSpoiled l (left - 1)))
      split
      · rw [show left - 1 = 0 by omega] at hnext
        exact hnext
      · have hunclosed := hnext.not_closes (by omega) (by omega)
        exact ⟨hnext, lt_firstTime hnext.unclosed hunclosed, by omega, by omega⟩
  | endBatch l =>
    obtain ⟨rfl, rfl⟩ := h
    have hl : s.Underway signals n 0 log l := hp
    have hcalls := hl.calls
    simp only [Point.calls, Point.completes, Nat.add_zero] at hcalls ⊢
    have hlength : (log ++ [l.batch s now]).length = log.length + 1 := by simp
    have hbatches : (l.completed s now).batches = clipCount (log ++ [l.batch s now]).length := by
      rw [batches_completed, hl.batches, hlength]
      unfold clipCount
      omega
    by_cases hmode : s.mode = .singleShot
    · rw [if_pos hmode]
      -- the first batch is the last one
      have hclosed : s.closedAt signals ≤ s.batchSize.val :=
        firstTime_le ((closes_single hmode).mpr rfl)
      have hle : n ≤ s.batchSize := Nat.cast_le.mp (hl.unclosed.trans hclosed)
      have hge : s.batchSize.val ≤ n := hcalls ▸ Nat.le_mul_of_pos_left _ (Nat.succ_pos _)
      have hn : n = s.batchSize := Nat.le_antisymm hle hge
      have hat : s.closedAt signals = n := firstTime_eq hl.unclosed ((closes_single hmode).mpr hn)
      exact stopped_closed hl.unspoiled hat (by rw [hlength]; exact hcalls) hbatches
    · rw [if_neg hmode]
      exact ⟨hmode, by rw [hlength]; exact hcalls, by omega, hbatches, hl.unspoiled, hl.unclosed⟩
  | checkDone l =>
    obtain ⟨rfl, rfl⟩ := h
    simp only [Point.calls, Point.completes, List.append_nil, Nat.add_zero, hm]
    obtain ⟨hmode, hn, hpos, hbatches, hspoiled, hclosed⟩ := hp
    have hcalls : 0 < n := hn ▸ Nat.mul_pos hpos s.batchSize.pos
    have hcloses : s.Closes signals n ↔ (signals n).done = true :=
      closes_iff hmode hcalls ⟨_, hn.trans (Nat.mul_comm ..)⟩
    split
    · rename_i hd
      exact stopped_closed hspoiled (firstTime_eq hclosed (hcloses.mpr hd)) hn hbatches
    · rename_i hd
      have hlt : (n : ℕ∞) < s.closedAt signals := lt_firstTime hclosed (mt hcloses.mp hd)
      exact ⟨⟨by rw [hn, Nat.succ_mul], hbatches, hspoiled, hclosed⟩, hlt⟩
  | stop l spoiled =>
    simp only [Point.calls, Point.completes, List.append_nil, Nat.add_zero]
    simp only [step] at h
    split at h
    · obtain ⟨rfl, rfl⟩ := h
      exact hp
    · obtain ⟨rfl, rfl⟩ := h
      exact hp
  | widenMask l r =>
    obtain ⟨rfl, rfl⟩ := h
    simp only [Point.calls, Point.completes, List.append_nil, Nat.add_zero]
    exact hp

theorem Stint.placed (hs : s.Stint signals k n log t) : s.Placed signals n log t := by
  induction hs with
  | start => exact ⟨rfl, rfl⟩
  | step hs hm h ih => exact placed_of_yields h hm ih

theorem Placed.le (h : s.Placed signals n log t) :
    (n : ℕ∞) ≤ min (spoiledAt signals) (s.closedAt signals) := by
  cases t with
  | point p =>
    cases p with
    | start =>
      obtain ⟨rfl, rfl⟩ := h
      exact zero_le
    | beginBatch l | checkSpoiled l left | work l left => exact le_min h.1.unspoiled h.1.unclosed
    | endBatch l => exact le_min h.unspoiled h.unclosed
    | checkDone l => exact le_min h.2.2.2.2.1 h.2.2.2.2.2
    | stop l spoiled => exact h.calls.le
    | widenMask l r => exact h.calls.le
  | ended o =>
    cases o with
    | ok r => exact h.calls.le
    | failed e => exact h.elim
    | crashed text => exact le_min h.1 h.2

/-! ### The steps -/

/-- How many steps a stand may lie behind the last call. -/
def credit : Stand Point Tally → Nat
  | .point (.endBatch _) => 0
  | .point .start | .point (.checkDone _) => 1
  | .point (.beginBatch _) => 2
  | .point (.checkSpoiled ..) => 3
  | .point (.work ..) | .point (.stop ..) => 4
  | .point (.widenMask ..) => 5
  | .ended _ => 6

theorem Step.credit (h : s.Step m p m' t) :
    Measurement.credit (.point p) + 1 ≤ 5 * p.calls + Measurement.credit t := by
  cases h <;> simp [Measurement.credit, Point.calls]

theorem Stint.steps_lt (hs : s.Stint signals k n log t) : k < 5 * n + credit t := by
  induction hs with
  | start => decide
  | step hs hm h ih =>
    have hcredit := (step_of_yields h).credit
    omega

theorem credit_le (t : Stand Point Tally) : credit t ≤ 6 := by
  unfold credit
  split <;> decide

/-- A measurement can always go on. -/
theorem exists_yields (s : Measurement) (now : Nat) (m : Memory) (p : Point) :
    ∃ m' t, (s.step now m p).Yields m m' t := by
  cases hv : s.step now m p with
  | act m' notes t => exact ⟨m', t, rfl, rfl⟩
  | ask q k =>
    have hq : q.Admits (.returned 0) := by cases q <;> trivial
    exact ⟨m, k (.returned 0), rfl, _, hq, rfl⟩
  | blocked => exact absurd hv not_blocked

/-! ### The samples -/

/-- Once it has begun, a stint is a course. -/
theorem Stint.course (hs : s.Stint signals k n log t) : t = .point .start ∧ n = 0 ∧ log = [] ∨
    ∃ began seed,
      s.Course (.opening began seed s.iteration.sampleQuota (signals 0).mask) log t := by
  induction hs with
  | start => exact .inl ⟨rfl, rfl, rfl⟩
  | step hs hm h ih =>
    rcases ih with ⟨hp, rfl, rfl⟩ | ⟨began, seed, hc⟩
    · cases hp
      rw [opening_of_yields h, hm]
      exact .inr ⟨_, _, .start⟩
    · exact .inr ⟨began, seed, hc.step h⟩

/-- As long as every batch is timed and none is thinned out, all of them are kept. -/
theorem Sampled.kept_eq {seed : UInt32} {r : Sampler} (h : Sampled 0 seed log r)
    (ht : thinnings log = 0) :
    kept log = List.range log.length := by
  have hlt : (kept log).Pairwise (· < ·) :=
    List.isChain_iff_pairwise.mp (h.apart.imp fun _ _ hb => hb.lt)
  refine hlt.eq_of_mem_iff List.pairwise_lt_range fun b => ?_
  rw [List.mem_range]
  refine ⟨h.lt b, fun hb => ?_⟩
  have hepoch : epoch log b = thinnings log := by
    have hle : epoch log b ≤ thinnings log := epoch_le_thinnings
    omega
  rw [h.mem_iff b hb hepoch, ht]
  exact one_dvd _

theorem map_sample?_range : (List.range log.length).map (sample? log) = log.map Batch.sample := by
  apply List.ext_getElem
  · simp
  · intro i hi hi'
    simp [sample?, List.getElem?_eq_getElem (by simpa using hi : i < log.length)]

/-- How a measurement ends that its calls would stop: what it has counted, and that the batch in
progress is in none of it. -/
structure Exact (s : Measurement) (signals : Nat → Signals) (n : Nat) (log : List Batch)
    (r : Tally) : Prop where
  calls : (n : ℕ∞) = min (spoiledAt signals) (s.closedAt signals)
  spoiled : r.spoiled = true ↔ spoiledAt signals < s.closedAt signals
  ops : r.windowOps = clipCount (match s.mode with
    | .throughput | .averageTime => n
    | .sampleTime => n / s.iteration.batch
    | .singleShot => if r.spoiled then 0 else 1)
  batches : log.length = n / s.batchSize
  samples : r.samples = (Sampler.History.recording s.iteration.sampleQuota (signals 0).mask
    (recordings log)).sampler.samples
  each : s.mode = .sampleTime → (signals 0).mask = 0 → log.length < max 1 s.iteration.sampleQuota →
    r.samples.toList.map some = log.map Batch.sample

theorem Stopped.ops_eq {spoiled : Bool} {ops : Nat} (h : s.Stopped signals n log spoiled ops) :
    ops = clipCount (match s.mode with
      | .throughput | .averageTime => n
      | .sampleTime => n / s.iteration.batch
      | .singleShot => if spoiled then 0 else 1) := by
  have hbatches := h.batches
  rw [h.ops]
  cases hm : s.mode with
  | throughput | averageTime =>
    simp only [batchSize, hm, Quantity.one, Nat.div_one] at hbatches
    rw [hbatches]
  | sampleTime =>
    simp only [batchSize, hm] at hbatches
    rw [hbatches]
  | singleShot =>
    have hclosed : s.closedAt signals ≤ s.batchSize.val := firstTime_le ((closes_single hm).mpr rfl)
    have hcalls := h.calls
    cases spoiled with
    | true =>
      have hlt : (n : ℕ∞) < s.batchSize.val := by
        have hspoiled := h.spoiled.mp rfl
        rw [hcalls, min_eq_left hspoiled.le]
        exact hspoiled.trans_le hclosed
      rw [hbatches, Nat.div_eq_of_lt (Nat.cast_lt.mp hlt)]
      rfl
    | false =>
      have hle : s.closedAt signals ≤ spoiledAt signals :=
        not_lt.mp (mt h.spoiled.mpr Bool.false_ne_true)
      have hclosed' : s.closedAt signals = s.batchSize.val :=
        firstTime_eq (le_firstTime fun k hk => ((closes_single hm).mp hk).ge)
          ((closes_single hm).mpr rfl)
      rw [min_eq_right hle, hclosed', Nat.cast_inj] at hcalls
      rw [hbatches, hcalls, Nat.div_self s.batchSize.pos]
      rfl

theorem Stint.exact {r : Tally} (hs : s.Stint signals k n log (.ended (.ok r))) :
    s.Exact signals n log r := by
  have hstopped : s.Stopped signals n log r.spoiled r.windowOps := hs.placed
  obtain ⟨hp, -⟩ | ⟨began, seed, hc⟩ := hs.course
  · cases hp
  obtain ⟨sampler, hrecorded, hsamples⟩ := hc.records r rfl
  refine ⟨hstopped.calls, hstopped.spoiled, hstopped.ops_eq, hstopped.batches, ?_,
    fun hm hmask hfew => ?_⟩
  · rw [hsamples, hrecorded.sampler]
  · have hquota : s.iteration.sampleQuota ≤ maxCount := clipCount_le _
    have hlength : (recordings log).length ≤ log.length := length_recordings_le
    have hnone : thinnings log = 0 := by
      rw [hrecorded.thinnings, (Sampler.History.retained hquota _ _).thinnings]
      exact Nat.div_eq_of_lt (hlength.trans_lt hfew)
    obtain ⟨sampler', hsampled, hsamples'⟩ :=
      hc.drawn (j := 0) hm (by rw [hmask]; rfl) (by omega) r rfl
    rw [hsamples', hsampled.samples, hsampled.kept_eq hnone, map_sample?_range]

/-- Only a call that crashes ends a measurement early. -/
theorem Stint.last_call {text : String} (hs : s.Stint signals k n log (.ended (.crashed text))) :
    ∃ k' n' l left, k = k' + 1 ∧ n = n' + 1 ∧
      s.Stint signals k' n' log (.point (.work l left)) := by
  cases hs with
  | @step k n log now m m' p t hs hm h =>
    cases step_of_yields h with
    | crash =>
      simp only [Point.completes, List.append_nil]
      exact ⟨k, n, _, _, rfl, rfl, hs⟩

/-- A measurement that its calls would stop after `N` of them makes no more than these. It takes a
bounded number of steps and can always take the next one, it does not fail, and if it ends other
than by a call that crashes, it has made all of them and measured what it should. -/
theorem Stint.stops_exactly {N : Nat} (hN : min (spoiledAt signals) (s.closedAt signals) = N)
    (hs : s.Stint signals k n log t) :
    n ≤ N ∧ k ≤ 5 * (N + 1) ∧
      (∀ p, t = .point p → ∀ now m, ∃ m' t', (s.step now m p).Yields m m' t') ∧ ∀ o, t = .ended o →
        (∃ r, o = .ok r ∧ n = N ∧ s.Exact signals n log r) ∨
        ∃ text k' n' l left, o = .crashed text ∧ k = k' + 1 ∧ n = n' + 1 ∧
          s.Stint signals k' n' log (.point (.work l left)) := by
  have hle : n ≤ N := Nat.cast_le.mp (hs.placed.le.trans hN.le)
  have hsteps : k < 5 * n + credit t := hs.steps_lt
  have hcredit : credit t ≤ 6 := credit_le t
  refine ⟨hle, by omega, fun p _ now m => exists_yields s now m p, fun o ho => ?_⟩
  subst ho
  cases o with
  | ok r =>
    have hexact := hs.exact
    exact .inl ⟨r, rfl, Nat.cast_inj.mp (hexact.calls.trans hN), hexact⟩
  | failed e => exact hs.placed.elim
  | crashed text =>
    obtain ⟨k', n', l, left, hk, hn, hs⟩ := hs.last_call
    exact .inr ⟨text, k', n', l, left, rfl, hk, hn, hs⟩

/-- Takes a step at each reading of the clock; every call returns. -/
def pursue (s : Measurement) (signals : Nat → Signals) :
    List Nat → Nat → List Batch → Stand Point Tally → Nat × List Batch × Stand Point Tally
  | now :: rest, n, log, .point p =>
    match s.step now (({} : Memory).signal s.iteration fun _ => signals n) p with
    | .act _ _ t => pursue s signals rest (n + p.calls) (log ++ p.completes s now) t
    | .ask _ f => pursue s signals rest (n + p.calls) (log ++ p.completes s now) (f (.returned 0))
    | .blocked => (n, log, .point p)
  | _, n, log, t => (n, log, t)

theorem Stint.pursue (hs : s.Stint signals k n log t) (readings : List Nat) :
    ∃ k', s.Stint signals k' (s.pursue signals readings n log t).1
      (s.pursue signals readings n log t).2.1 (s.pursue signals readings n log t).2.2 := by
  fun_induction Measurement.pursue s signals readings n log t generalizing k with
  | case1 now rest n log p m' notes t hv ih =>
    exact ih (hs.step (Memory.signalsOf_signal_self ..) (by rw [hv]; exact ⟨rfl, rfl⟩))
  | case2 now rest n log p q f hv ih =>
    have hq : q.Admits (.returned 0) := by cases q <;> trivial
    exact ih (hs.step (Memory.signalsOf_signal_self ..) (by rw [hv]; exact ⟨rfl, _, hq, rfl⟩))
  | case3 | case4 => exact ⟨k, hs⟩

/-- The third call raises both signals in the middle of the second batch. -/
theorem stops_exactly_amid :
    let s : Measurement :=
      ⟨{ Execution.duet.iteration 0 0 with
        batch := ⟨2, by decide, by decide⟩, duration := .ofMillis 1 }, .sampleTime⟩
    let signals : Nat → Signals := fun n => { done := decide (3 ≤ n), spoiled := decide (3 ≤ n) }
    let stint := s.pursue signals (List.range 20) 0 [] (.point .start)
    let r : Tally :=
      { windowOps := 1, elapsed := .ofNanos 12, samples := .ofList [5], spoiled := true }
    min (spoiledAt signals) (s.closedAt signals) = (3 : Nat) ∧ stint.2.2.outcome? = some (.ok r) ∧
      s.Exact signals 3 stint.2.1 r := by
  intro s signals stint r
  have hspoiled : spoiledAt signals = (3 : Nat) := by
    refine firstTime_eq (le_firstTime fun k hk => ?_) (by decide)
    simpa [signals] using hk
  have hclosed : s.closedAt signals = (4 : Nat) := by
    refine firstTime_eq (le_firstTime fun k hk => ?_) (by simp [Closes, s, signals])
    obtain ⟨hpos, hdvd, hdone⟩ : 0 < k ∧ 2 ∣ k ∧ decide (3 ≤ k) = true := by
      simpa [Closes, s, signals] using hk
    have hdone := of_decide_eq_true hdone
    omega
  have hN : min (spoiledAt signals) (s.closedAt signals) = (3 : Nat) := by
    rw [hspoiled, hclosed]
    rfl
  have hr : stint.2.2.outcome? = some (.ok r) := by decide +kernel
  obtain ⟨k, hs⟩ := (@Stint.start s signals).pursue (List.range 20)
  cases ht : stint.2.2 with
  | point p => simp [ht, Stand.outcome?] at hr
  | ended o =>
    obtain rfl : o = .ok r := by simpa [ht, Stand.outcome?] using hr
    rw [ht] at hs
    obtain ⟨r', hr', hn, hexact⟩ | ⟨text, _, _, _, _, hcrash, _⟩ :=
      (hs.stops_exactly hN).2.2.2 _ rfl
    · cases hr'
      exact ⟨hN, rfl, hn ▸ hexact⟩
    · cases hcrash

end Measurement
end LoadBench
