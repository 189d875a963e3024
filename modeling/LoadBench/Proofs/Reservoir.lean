import LoadBench.Proofs.Thinning

/-!
# What a sampler holds

A sampler never holds twice its target when a sample comes in: a thinning leaves at most as many
samples as the target, rounding up included, and then as many again come in until the next one
(`Sampler.History.retained`). What it holds was recorded in this order, from the first sample of all
on, and is complete since the last thinning.

A history remembers beside the sampler how often it was thinned, and what was recorded since.
-/

namespace LoadBench

@[simp] theorem head?_everySecond {α : Type} (xs : List α) : (everySecond xs).head? = xs.head? := by
  fun_induction everySecond xs <;> rfl

namespace Sampler
variable {x target : Nat} {mask : UInt32} {xs : List Nat}

/-- A sampler, how often it was thinned, and the samples recorded since. -/
structure History where
  sampler : Sampler
  thinnings : Nat
  recent : List Nat

namespace History
variable {h : History}

def add (h : History) (x : Nat) : History where
  sampler := h.sampler.add x
  thinnings := if h.sampler.thins then h.thinnings + 1 else h.thinnings
  recent := if h.sampler.thins then [] else h.recent ++ [x]

def recording (target : Nat) (mask : UInt32) (xs : List Nat) : History :=
  xs.foldl add ⟨.start target mask, 0, []⟩

theorem recording_append : recording target mask (xs ++ [x]) = (recording target mask xs).add x :=
  List.foldl_concat ..

/-- What a history remembers besides does not touch the sampler. -/
theorem sampler_recording (target : Nat) (mask : UInt32) (xs : List Nat) :
    (recording target mask xs).sampler = xs.foldl Sampler.add (.start target mask) := by
  induction xs using List.reverseRecOn with
  | nil => rfl
  | append_singleton xs x ih => rw [recording_append, List.foldl_concat, ← ih, add]

/-- A mask that is widened so often, as a number of 32 bits. -/
def widened (n mask : Nat) : Nat := (fun m => 2 * m % 2 ^ 32 + 1)^[n] mask

theorem widened_succ (n mask : Nat) : widened (n + 1) mask = 2 * widened n mask % 2 ^ 32 + 1 :=
  Function.iterate_succ_apply' ..

/-- The samples fall into those that a thinning has left, of which there are no more than `T`, and
those recorded since. -/
structure Held (T : Nat) (mask : UInt32) (xs : List Nat) (h : History) : Prop where
  target : h.sampler.target = T
  samples : ∃ old, h.sampler.samples.toList = old ++ h.recent ∧ old.length ≤ T
  count : xs.length = T * h.thinnings + h.recent.length
  stride : h.sampler.stride = h.recent.length
  lt : h.recent.length < T
  mask : h.sampler.mask.toNat = widened h.thinnings mask.toNat
  sublist : h.sampler.samples.toList.Sublist xs
  head : h.sampler.samples.toList.head? = xs.head?
  recent : h.recent <:+ xs

namespace Held
variable {T : Nat}

theorem start (ht : 0 < T) : Held T mask [] ⟨⟨.empty, mask, 0, T⟩, 0, []⟩ where
  target := rfl
  samples := ⟨[], rfl, Nat.zero_le _⟩
  count := rfl
  stride := rfl
  lt := ht
  mask := rfl
  sublist := .slnil
  head := rfl
  recent := List.suffix_rfl

/-- With the next sample there are as many as the target since the last thinning. -/
theorem thins_iff (hh : Held T mask xs h) (hT : T ≤ maxCount) :
    h.sampler.thins = true ↔ h.recent.length + 1 = T := by
  have hlt := hh.lt
  rw [thins, decide_eq_true_iff, hh.target, hh.stride, clipCount_of_le (by omega)]
  omega

theorem sublist_grown (hh : Held T mask xs h) :
    (h.sampler.samples.toList ++ [x]).Sublist (xs ++ [x]) := hh.sublist.append (List.Sublist.refl _)

theorem head_grown (hh : Held T mask xs h) :
    (h.sampler.samples.toList ++ [x]).head? = (xs ++ [x]).head? := by
  rw [List.head?_append, List.head?_append, hh.head]

theorem add (hh : Held T mask xs h) (hT : T ≤ maxCount) (x : Nat) :
    Held T mask (xs ++ [x]) (h.add x) := by
  have hlt := hh.lt
  have hcount := hh.count
  obtain ⟨old, hsamples, hold⟩ := hh.samples
  have hgrown : h.sampler.samples.toList ++ [x] = old ++ (h.recent ++ [x]) := by
    rw [hsamples, List.append_assoc]
  cases ht : h.sampler.thins with
  | true =>
    have hfull : h.recent.length + 1 = T := (hh.thins_iff hT).mp ht
    have hadd : h.add x = ⟨{ h.sampler with
        samples := (h.sampler.samples.add x).thin, stride := 0, mask := widen h.sampler.mask },
        h.thinnings + 1, []⟩ := by
      simp only [History.add, ht, if_true, add_of_thins ht]
    rw [hadd]
    constructor
    · exact hh.target
    · refine ⟨everySecond (h.sampler.samples.toList ++ [x]), by simp, ?_⟩
      rw [length_everySecond, hgrown, List.length_append, List.length_append, List.length_singleton]
      omega
    · rw [List.length_append, List.length_singleton, List.length_nil, Nat.mul_succ]
      omega
    · rfl
    · exact Nat.zero_lt_of_lt hlt
    · rw [toNat_widen_eq, hh.mask, widened_succ]
    · rw [Samples.toList_thin, Samples.toList_add]
      exact (everySecond_sublist _).trans hh.sublist_grown
    · rw [Samples.toList_thin, Samples.toList_add, head?_everySecond, hh.head_grown]
    · exact List.nil_suffix
  | false =>
    have hroom : h.recent.length + 1 ≠ T :=
      fun hc => Bool.noConfusion (ht.symm.trans ((hh.thins_iff hT).mpr hc))
    have hadd : h.add x = ⟨{ h.sampler with
        samples := h.sampler.samples.add x, stride := clipCount (h.sampler.stride + 1) },
        h.thinnings, h.recent ++ [x]⟩ := by
      simp only [History.add, ht, Bool.false_eq_true, if_false, add_of_not_thins ht]
    rw [hadd]
    constructor
    · exact hh.target
    · exact ⟨old, by rw [Samples.toList_add, hgrown], hold⟩
    · change (xs ++ [x]).length = T * h.thinnings + (h.recent ++ [x]).length
      rw [List.length_append, List.length_append, List.length_singleton]
      omega
    · change clipCount (h.sampler.stride + 1) = _
      rw [hh.stride, clipCount_of_le (by omega), List.length_append, List.length_singleton]
    · rw [List.length_append, List.length_singleton]
      omega
    · exact hh.mask
    · rw [Samples.toList_add]
      exact hh.sublist_grown
    · rw [Samples.toList_add, hh.head_grown]
    · obtain ⟨past, hpast⟩ := hh.recent
      exact ⟨past, by rw [← hpast, List.append_assoc]⟩

end Held

theorem held (ht : target ≤ maxCount) (xs : List Nat) :
    Held (max 1 target) mask xs (recording target mask xs) := by
  have hpos : 0 < max 1 target := by omega
  have hT : max 1 target ≤ maxCount := Nat.max_le.mpr ⟨by decide, ht⟩
  induction xs using List.reverseRecOn with
  | nil =>
    have hstart : recording target mask [] = ⟨⟨.empty, mask, 0, max 1 target⟩, 0, []⟩ := by
      rw [Nat.max_comm]
      rfl
    rw [hstart]
    exact .start hpos
  | append_singleton xs x ih =>
    rw [recording_append]
    exact ih.add hT x

/-- What a sampler holds after some samples, and what becomes of it while one more comes in. -/
structure Retained (target : Nat) (mask : UInt32) (xs : List Nat) (h : History) : Prop where
  peak : ∀ x, (h.sampler.samples.add x).size ≤ 2 * max 1 target
  size : h.sampler.samples.size ≤ 2 * max 1 target - 1
  pos : xs ≠ [] → 0 < h.sampler.samples.size
  thinnings : h.thinnings = xs.length / max 1 target
  stride : h.sampler.stride = xs.length % max 1 target
  mask : h.sampler.mask.toNat = widened (xs.length / max 1 target) mask.toNat
  sublist : h.sampler.samples.toList.Sublist xs
  head : h.sampler.samples.toList.head? = xs.head?
  recent : h.recent = xs.drop (xs.length - xs.length % max 1 target)
  suffix : h.recent <:+ h.sampler.samples.toList

/-- However many samples come in, a sampler holds less than twice its target of them, from
the first one on, and all since the last thinning; there was one thinning for each time that
the target has come in. -/
theorem retained (ht : target ≤ maxCount) (mask : UInt32) (xs : List Nat) :
    Retained target mask xs (recording target mask xs) := by
  have hh : Held (max 1 target) mask xs (recording target mask xs) := held ht xs
  have hlt := hh.lt
  have hpos : 0 < max 1 target := by omega
  obtain ⟨old, hsamples, hold⟩ := hh.samples
  have hsize : (recording target mask xs).sampler.samples.toList.length =
      old.length + (recording target mask xs).recent.length := by rw [hsamples, List.length_append]
  have hdiv : xs.length / max 1 target = (recording target mask xs).thinnings := by
    rw [hh.count, Nat.mul_add_div hpos, Nat.div_eq_of_lt hlt, Nat.add_zero]
  have hmod : xs.length % max 1 target = (recording target mask xs).recent.length := by
    rw [hh.count, Nat.mul_add_mod, Nat.mod_eq_of_lt hlt]
  constructor
  · intro x
    rw [Samples.size_eq_length, Samples.toList_add, List.length_append,
      List.length_singleton, hsize]
    omega
  · rw [Samples.size_eq_length, hsize]
    omega
  · intro hne
    rw [Samples.size_eq_length, List.length_pos_iff, ne_eq, ← List.head?_eq_none_iff, hh.head,
      List.head?_eq_none_iff]
    exact hne
  · exact hdiv.symm
  · rw [hmod, hh.stride]
  · rw [hdiv, hh.mask]
  · exact hh.sublist
  · exact hh.head
  · rw [hmod]
    exact List.suffix_iff_eq_drop.mp hh.recent
  · exact ⟨old, hsamples.symm⟩

/-- Seven samples for a target of three: two thinnings, and one sample since. -/
theorem retained_seven :
    3 ≤ maxCount ∧ Retained 3 0 [7, 6, 5, 4, 3, 2, 1] (recording 3 0 [7, 6, 5, 4, 3, 2, 1]) ∧
      (recording 3 0 [7, 6, 5, 4, 3, 2, 1]).sampler.samples.toList = [7, 4, 2, 1] :=
  ⟨by decide, retained (by decide) 0 _, by decide⟩

end History
end Sampler

/-! ### The samples of a measurement -/

namespace Measurement
open Sampler.History (recording)

variable {s : Measurement} {m m' : Memory} {now target : Nat} {seed mask : UInt32}
  {l : Loop} {p : Point} {t : Stand Point Tally} {log : List Batch}

def recordings (log : List Batch) : List Nat := log.filterMap Batch.sample

theorem length_recordings_le : (recordings log).length ≤ log.length := List.length_filterMap_le ..

/-- The sampler is that of the samples recorded, and has been thinned as often as it. -/
structure Recorded (target : Nat) (mask : UInt32) (log : List Batch) (r : Sampler) : Prop where
  sampler : r = (recording target mask (recordings log)).sampler
  thinnings : thinnings log = (recording target mask (recordings log)).thinnings

theorem Recorded.completed (hr : Recorded target mask log l.sampler) :
    Recorded target mask (log ++ [l.batch s now]) (l.completed s now).sampler := by
  obtain ⟨hsampler, hthinnings⟩ := hr
  unfold Loop.completed
  cases hf : l.timedFrom with
  | none =>
    have hrec : recordings (log ++ [l.batch s now]) = recordings log := by
      simp [recordings, List.filterMap_append, Loop.batch, hf]
    refine ⟨hrec ▸ hsampler, ?_⟩
    rw [hrec, thinnings_append, hthinnings]
    simp [Loop.batch, hf]
  | some from_ =>
    have hrec : recordings (log ++ [l.batch s now]) =
        recordings log ++ [clipCount (now - from_) / s.iteration.benchmark.opsPerCall] := by
      simp [recordings, List.filterMap_append, Loop.batch, hf]
    have hthins :
        (l.batch s now).thinned = (recording target mask (recordings log)).sampler.thins := by
      simp [Loop.batch, hf, hsampler]
    rw [hsampler]
    refine ⟨?_, ?_⟩
    · rw [hrec, Sampler.History.recording_append]
      rfl
    · rw [hrec, Sampler.History.recording_append, thinnings_append, hthinnings, hthins,
        Sampler.History.add]
      cases (recording target mask (recordings log)).sampler.thins <;> rfl

def Records (target : Nat) (mask : UInt32) (log : List Batch) : Stand Point Tally → Prop
  | .point .start => False
  | .point (.widenMask l r) => Recorded target mask log l.sampler ∧ r.samples = l.sampler.samples
  | .point p => ∀ l, p.loop? = some l → Recorded target mask log l.sampler
  | .ended o =>
    ∀ r, o = .ok r → ∃ sampler, Recorded target mask log sampler ∧ r.samples = sampler.samples

theorem sampler_nextBatch : (l.nextBatch s now).sampler = l.sampler := by
  unfold Loop.nextBatch
  split <;> rfl

theorem records_of_yields (h : (s.step now m p).Yields m m' t)
    (hp : Records target mask log (.point p)) :
    Records target mask (log ++ p.completes s now) t := by
  cases p with
  | start => exact hp.elim
  | beginBatch l =>
    obtain ⟨rfl, rfl⟩ := h
    simp only [Point.completes, List.append_nil]
    intro l' hl
    cases hl
    rw [sampler_nextBatch]
    exact hp l rfl
  | checkSpoiled l left =>
    simp only [Point.completes, List.append_nil]
    simp only [step] at h
    split at h <;> obtain ⟨rfl, rfl⟩ := h <;> exact hp
  | work l left =>
    simp only [Point.completes, List.append_nil]
    obtain ⟨rfl, r, hr, rfl⟩ := h
    cases r with
    | crashed text =>
      intro o ho
      cases ho
    | refused problem => exact hr.elim
    | returned v =>
      change Records target mask log
        (.point (if left ≤ 1 then .endBatch l else .checkSpoiled l (left - 1)))
      split <;> exact hp
  | endBatch l =>
    obtain ⟨rfl, rfl⟩ := h
    have hdone : Recorded target mask (log ++ [l.batch s now]) (l.completed s now).sampler :=
      (hp l rfl).completed
    split
    · intro l' hl
      cases hl
      exact hdone
    · intro l' hl
      cases hl
      exact hdone
  | checkDone l =>
    simp only [Point.completes, List.append_nil]
    obtain ⟨rfl, rfl⟩ := h
    split <;> exact hp
  | stop l spoiled =>
    simp only [Point.completes, List.append_nil]
    have hl := hp l rfl
    simp only [step] at h
    split at h
    · obtain ⟨rfl, rfl⟩ := h
      exact ⟨hl, rfl⟩
    · obtain ⟨rfl, rfl⟩ := h
      intro r hr
      cases hr
      exact ⟨_, hl, rfl⟩
  | widenMask l r =>
    simp only [Point.completes, List.append_nil]
    obtain ⟨rfl, rfl⟩ := h
    intro r' hr
    cases hr
    exact ⟨_, hp⟩

/-- A sampled measurement keeps its samples as a sampler does that records
them one after the other. -/
theorem Course.records {began : Nat} (hc : s.Course (.opening began seed target mask) log t) :
    Records target mask log t := by
  induction hc with
  | start =>
    intro l hl
    cases hl
    exact ⟨rfl, rfl⟩
  | step hc h ih => exact records_of_yields h ih

end Measurement
end LoadBench
