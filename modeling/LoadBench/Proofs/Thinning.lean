import LoadBench.Proofs.Generator
import LoadBench.Proofs.Run
import Mathlib.Data.List.Chain

/-!
# How dense the samples are

Sampled time keeps the times of some of its batches. Each thinning halves the samples kept and the
rate of new ones alike, so that neighbours which were recorded between the same two thinnings are as
far apart as the samples that come in now, however old they are
(`Measurement.Course.evenly_spaced`).

A course lists the completed batches of a measurement, timed or not. `kept` does with the numbers of
the timed ones what a sampler does with their times.
-/

namespace LoadBench

theorem everySecond_map {α β : Type} (f : α → β) (xs : List α) :
    everySecond (xs.map f) = (everySecond xs).map f := by
  fun_induction everySecond xs with
  | case1 | case2 => rfl
  | case3 a b rest ih => simpa [everySecond] using ih

/-- Where two steps of `R` make a step of `S`, leaving every second element out
leads from `R` to `S`. -/
theorem isChain_everySecond {α : Type} {R S : α → α → Prop} (h : ∀ x y z, R x y → R y z → S x z)
    {xs : List α} (hx : xs.IsChain R) : (everySecond xs).IsChain S := by
  fun_induction everySecond xs with
  | case1 => exact .nil
  | case2 a => exact .singleton a
  | case3 a b rest ih =>
    obtain ⟨hab, hrest⟩ := List.isChain_cons_cons.mp hx
    have hrest' : (everySecond rest).IsChain S := ih hrest.tail
    cases rest with
    | nil => exact .singleton a
    | cons c rest =>
      have hbc := (List.isChain_cons_cons.mp hrest).1
      cases rest with
      | nil => exact .cons_cons (h _ _ _ hab hbc) (.singleton c)
      | cons d rest => exact .cons_cons (h _ _ _ hab hbc) hrest'

/-- Whether the next sample completes as many as the target. -/
def Sampler.thins (r : Sampler) : Bool := r.target ≤ clipCount (r.stride + 1)

theorem Sampler.add_of_thins {r : Sampler} {x : Nat} (h : r.thins = true) :
    r.add x = { r with samples := (r.samples.add x).thin, stride := 0, mask := widen r.mask } := by
  have h : r.target ≤ clipCount (r.stride + 1) := by simpa [thins] using h
  simp only [add, h, if_true]

theorem Sampler.add_of_not_thins {r : Sampler} {x : Nat} (h : r.thins = false) :
    r.add x = { r with samples := r.samples.add x, stride := clipCount (r.stride + 1) } := by
  have h : ¬ r.target ≤ clipCount (r.stride + 1) := by simpa [thins] using h
  simp only [add, h, if_false]

namespace Measurement

/-- A completed batch: the sample that was made of it, if it was timed, and whether
that led to a thinning. -/
structure Batch where
  sample : Option Nat
  thinned : Bool

def Batch.keep (x : Batch) (n : Nat) (kept : List Nat) : List Nat :=
  match x.sample with
  | none => kept
  | some _ => if x.thinned then everySecond (kept ++ [n]) else kept ++ [n]

def kept (log : List Batch) : List Nat := log.zipIdx.foldl (fun kept x => x.1.keep x.2 kept) []

def sample? (log : List Batch) (n : Nat) : Option Nat := log[n]?.bind Batch.sample

def thinnings (log : List Batch) : Nat := log.countP Batch.thinned

/-- How many thinnings came before a batch. -/
def epoch (log : List Batch) (n : Nat) : Nat := thinnings (log.take n)

def Loop.opening (began : Nat) (seed : UInt32) (target : Nat) (mask : UInt32) : Loop where
  began := began
  batches := 0
  draw := seed
  timedFrom := none
  sampler := .start target mask

def Loop.batch (l : Loop) (s : Measurement) (now : Nat) : Batch where
  sample := l.timedFrom.map fun from_ => clipCount (now - from_) / s.iteration.benchmark.opsPerCall
  thinned := l.timedFrom.isSome && l.sampler.thins

def Point.completes (s : Measurement) (now : Nat) : Point → List Batch
  | .endBatch l => [l.batch s now]
  | _ => []

def Point.loop? : Point → Option Loop
  | .start => none
  | .beginBatch l | .checkSpoiled l _ | .work l _ | .endBatch l | .checkDone l | .stop l _
  | .widenMask l _ => some l

/-- The batches completed since a loop began, and where the measurement stands; at every step the
clock and the memory may be anything. -/
inductive Course (s : Measurement) (l₀ : Loop) : List Batch → Stand Point Tally → Prop where
  | start : Course s l₀ [] (.point (.beginBatch l₀))
  | step {log : List Batch} {now : Nat} {m m' : Memory} {p : Point} {t : Stand Point Tally}
      (hc : Course s l₀ log (.point p)) (h : (s.step now m p).Yields m m' t) :
      Course s l₀ (log ++ p.completes s now) t

variable {s : Measurement} {m m' : Memory} {now n j target : Nat} {seed mask : UInt32}
  {l l₀ : Loop} {p : Point} {t : Stand Point Tally} {log : List Batch} {x : Batch} {r : Sampler}

/-- A measurement begins with such a loop. -/
theorem opening_of_yields (h : (s.step now m .start).Yields m m' t) :
    t = .point (.beginBatch (.opening now (s.iteration.age now).toUInt32 s.iteration.sampleQuota
      (m.signalsOf s.iteration).mask)) := h.2

/-! ### The numbers of the batches -/

theorem kept_append : kept (log ++ [x]) = x.keep log.length (kept log) := by
  simp [kept, List.zipIdx_append]

theorem thinnings_append : thinnings (log ++ [x]) = thinnings log + x.thinned.toNat := by
  rw [thinnings, List.countP_append, List.countP_singleton]
  cases x.thinned <;> rfl

theorem epoch_append (hn : n ≤ log.length) : epoch (log ++ [x]) n = epoch log n := by
  rw [epoch, List.take_append_of_le_length hn, epoch]

theorem epoch_length : epoch log log.length = thinnings log := by
  rw [epoch, List.take_length]

theorem epoch_le {k : Nat} (hk : k ≤ n) : epoch log k ≤ epoch log n :=
  ((List.take_prefix_take_left hk).sublist).countP_le

theorem epoch_le_thinnings : epoch log n ≤ thinnings log := (List.take_sublist n log).countP_le

theorem sample?_append (hn : n < log.length) : sample? (log ++ [x]) n = sample? log n := by
  rw [sample?, List.getElem?_append_left hn, sample?]

theorem sample?_length : sample? (log ++ [x]) log.length = x.sample := by
  simp [sample?]

/-- One batch after the other, and those of one epoch at the same distance. -/
structure Apart (gap : Nat) (log : List Batch) (b b' : Nat) : Prop where
  lt : b < b'
  completed : b' < log.length
  gap : epoch log b = epoch log b' → b' = b + gap

theorem Apart.double {gap b b' b'' : Nat} (h : Apart gap log b b') (h' : Apart gap log b' b'') :
    Apart (gap * 2) log b b'' := by
  refine ⟨h.lt.trans h'.lt, h'.completed, fun he => ?_⟩
  -- the batch between the two belongs to their epoch as well
  have hle : epoch log b ≤ epoch log b' := epoch_le h.lt.le
  have hle' : epoch log b' ≤ epoch log b'' := epoch_le h'.lt.le
  have hfirst := h.gap (by omega)
  have hsecond := h'.gap (by omega)
  omega

theorem Apart.append {gap b b' : Nat} (h : Apart gap log b b') : Apart gap (log ++ [x]) b b' := by
  have hlt := h.lt
  have hlog := h.completed
  refine ⟨hlt, by rw [List.length_append]; omega, fun he => h.gap ?_⟩
  rwa [epoch_append (by omega), epoch_append (by omega)] at he

/-! ### What a sampler has kept -/

/-- The samples of a sampler and the batches that they were made of. In the present epoch all
batches that are picked have been kept. -/
structure Sampled (j : Nat) (seed : UInt32) (log : List Batch) (r : Sampler) : Prop where
  mask : r.mask.toNat + 1 = 2 ^ (j + thinnings log)
  samples : r.samples.toList.map some = (kept log).map (sample? log)
  apart : (kept log).IsChain (Apart (2 ^ (j + thinnings log)) log)
  lt : ∀ b ∈ kept log, b < log.length
  mem_iff : ∀ b < log.length, epoch log b = thinnings log →
    (b ∈ kept log ↔ 2 ^ (j + thinnings log) ∣ (nextDraw^[b + 1] seed).toNat)

theorem Sampled.opening (hm : mask.toNat + 1 = 2 ^ j) : Sampled j seed [] (.start target mask) where
  mask := hm
  samples := rfl
  apart := .nil
  lt := nofun
  mem_iff := nofun

theorem Sampled.skip (h : Sampled j seed log r)
    (hp : r.picks (nextDraw^[log.length + 1] seed) = false) (hx : x.sample = none)
    (ht : x.thinned = false) : Sampled j seed (log ++ [x]) r := by
  have hkept : kept (log ++ [x]) = kept log := by
    rw [kept_append, Batch.keep, hx]
  have hcount : thinnings (log ++ [x]) = thinnings log := by
    rw [thinnings_append, ht]
    rfl
  refine ⟨hcount ▸ h.mask, ?_, ?_, ?_, ?_⟩
  · rw [hkept, h.samples]
    exact List.map_congr_left fun b hb => (sample?_append (h.lt b hb)).symm
  · rw [hkept, hcount]
    exact List.IsChain.imp (fun _ _ => Apart.append) h.apart
  · rw [hkept, List.length_append]
    exact fun b hb => Nat.lt_succ_of_lt (h.lt b hb)
  · intro b hb he
    rw [hkept, hcount]
    rw [List.length_append, List.length_singleton] at hb
    rw [epoch_append (by omega), hcount] at he
    rcases Nat.lt_succ_iff_lt_or_eq.mp hb with hb | rfl
    · exact h.mem_iff b hb he
    · refine iff_of_false (fun hmem => absurd (h.lt _ hmem) (Nat.lt_irrefl _)) fun hdvd => ?_
      rw [(Sampler.picks_iff h.mask).mpr hdvd] at hp
      cases hp

theorem le_getLast {kept : List Nat} {b : Nat} (hk : (kept ++ [b]).IsChain (· < ·)) {b' : Nat}
    (hb : b' ∈ kept) :
    b' < b := by
  have hpair := List.isChain_iff_pairwise.mp hk
  exact (List.pairwise_append.mp hpair).2.2 b' hb b List.mem_cons_self

/-- The batch that is picked next follows the last one of its epoch at the right distance. -/
theorem Sampled.apart_last (h : Sampled j seed log r) (hj : j + thinnings log ≤ 32)
    (hp : r.picks (nextDraw^[log.length + 1] seed) = true) {b : Nat} {rest : List Nat}
    (hb : kept log = rest ++ [b]) :
    Apart (2 ^ (j + thinnings log)) (log ++ [x]) b log.length := by
  have hmem : b ∈ kept log := by simp [hb]
  have hlt := h.lt b hmem
  refine ⟨hlt, by simp, fun he => ?_⟩
  rw [epoch_append hlt.le, epoch_append (Nat.le_refl _), epoch_length] at he
  have hdvd := (h.mem_iff b hlt he).mp hmem
  have hpicked := (Sampler.picks_iff h.mask).mp hp
  -- draws that are picked are whole periods apart, and every period is picked
  have hgap : 2 ^ (j + thinnings log) ∣ log.length - b := by
    rw [← two_pow_dvd_draw_iff hj hdvd]
    rwa [show b + 1 + (log.length - b) = log.length + 1 by omega]
  have hle : 2 ^ (j + thinnings log) ≤ log.length - b := Nat.le_of_dvd (by omega) hgap
  by_contra hne
  have hbetween : b + 2 ^ (j + thinnings log) < log.length := by omega
  have hepoch : epoch log (b + 2 ^ (j + thinnings log)) = thinnings log := by
    have hmono : epoch log b ≤ epoch log (b + 2 ^ (j + thinnings log)) :=
      epoch_le (Nat.le_add_right ..)
    have hmax : epoch log (b + 2 ^ (j + thinnings log)) ≤ thinnings log := epoch_le_thinnings
    omega
  have hnext : b + 2 ^ (j + thinnings log) ∈ kept log := by
    rw [h.mem_iff _ hbetween hepoch, Nat.add_right_comm, two_pow_dvd_draw_iff hj hdvd]
  have hchain : (rest ++ [b]).IsChain (· < ·) := hb ▸ List.IsChain.imp (fun _ _ => Apart.lt) h.apart
  rw [hb, List.mem_append, List.mem_singleton] at hnext
  rcases hnext with hnext | hnext
  · have := le_getLast hchain hnext
    omega
  · have := Nat.two_pow_pos (j + thinnings log)
    omega

theorem Sampled.isChain (h : Sampled j seed log r) (hj : j + thinnings log ≤ 32)
    (hp : r.picks (nextDraw^[log.length + 1] seed) = true) :
    (kept log ++ [log.length]).IsChain (Apart (2 ^ (j + thinnings log)) (log ++ [x])) := by
  refine List.isChain_append.mpr ⟨List.IsChain.imp (fun _ _ => Apart.append) h.apart,
    .singleton _, ?_⟩
  intro b hb b' hb'
  cases hb'
  obtain ⟨rest, hrest⟩ := List.getLast?_eq_some_iff.mp hb
  exact h.apart_last hj hp hrest

/-- The batches of a sampler with one more sample, before it may be thinned. -/
theorem Sampled.grown (h : Sampled j seed log r) {y : Nat} (hx : x.sample = some y) :
    (r.samples.add y).toList.map some = (kept log ++ [log.length]).map (sample? (log ++ [x])) := by
  have hold : (kept log).map (sample? (log ++ [x])) = (kept log).map (sample? log) :=
    List.map_congr_left fun b hb => sample?_append (h.lt b hb)
  rw [Samples.toList_add, List.map_append, List.map_append, hold, ← h.samples, List.map_singleton,
    List.map_singleton, sample?_length, hx]

theorem Sampled.add (h : Sampled j seed log r) (hj : j + thinnings log ≤ 32)
    (hp : r.picks (nextDraw^[log.length + 1] seed) = true) {y : Nat} (hx : x.sample = some y)
    (ht : x.thinned = false) (hr : r.thins = false) : Sampled j seed (log ++ [x]) (r.add y) := by
  have hkept : kept (log ++ [x]) = kept log ++ [log.length] := by
    rw [kept_append, Batch.keep, hx, ht]
    rfl
  have hcount : thinnings (log ++ [x]) = thinnings log := by
    rw [thinnings_append, ht]
    rfl
  rw [Sampler.add_of_not_thins hr]
  refine ⟨hcount ▸ h.mask, ?_, ?_, ?_, ?_⟩
  · rw [hkept]
    exact h.grown hx
  · rw [hkept, hcount]
    exact h.isChain hj hp
  · rw [hkept, List.length_append, List.length_singleton]
    intro b hb
    rcases List.mem_append.mp hb with hb | hb
    · exact Nat.lt_succ_of_lt (h.lt b hb)
    · rw [List.mem_singleton.mp hb]
      exact Nat.lt_succ_self _
  · intro b hb he
    rw [hkept, hcount, List.mem_append, List.mem_singleton]
    rw [List.length_append, List.length_singleton] at hb
    rw [epoch_append (by omega), hcount] at he
    rcases Nat.lt_succ_iff_lt_or_eq.mp hb with hb | rfl
    · rw [← h.mem_iff b hb he, or_iff_left (Nat.ne_of_lt hb)]
    · exact iff_of_true (.inr rfl) ((Sampler.picks_iff h.mask).mp hp)

/-- A thinning doubles all distances, and begins an epoch without batches. -/
theorem Sampled.thin (h : Sampled j seed log r) (hj : j + thinnings log < 32)
    (hp : r.picks (nextDraw^[log.length + 1] seed) = true) {y : Nat} (hx : x.sample = some y)
    (ht : x.thinned = true) (hr : r.thins = true) : Sampled j seed (log ++ [x]) (r.add y) := by
  have hkept : kept (log ++ [x]) = everySecond (kept log ++ [log.length]) := by
    rw [kept_append, Batch.keep, hx, ht]
    rfl
  have hcount : thinnings (log ++ [x]) = thinnings log + 1 := by
    rw [thinnings_append, ht]
    rfl
  rw [Sampler.add_of_thins hr]
  refine ⟨?_, ?_, ?_, ?_, ?_⟩
  · rw [hcount, ← Nat.add_assoc]
    exact Sampler.toNat_widen h.mask hj
  · rw [hkept, Samples.toList_thin, ← everySecond_map, h.grown hx, everySecond_map]
  · rw [hkept, hcount, ← Nat.add_assoc, pow_succ]
    exact isChain_everySecond (fun _ _ _ h h' => h.double h') (h.isChain hj.le hp)
  · rw [hkept, List.length_append, List.length_singleton]
    intro b hb
    rcases List.mem_append.mp ((everySecond_sublist _).subset hb) with hb | hb
    · exact Nat.lt_succ_of_lt (h.lt b hb)
    · rw [List.mem_singleton.mp hb]
      exact Nat.lt_succ_self _
  · intro b hb he
    rw [List.length_append, List.length_singleton] at hb
    rw [epoch_append (by omega), hcount] at he
    have hmax : epoch log b ≤ thinnings log := epoch_le_thinnings
    omega

/-! ### Along a course -/

theorem Sampled.completed (h : Sampled j seed log l.sampler)
    (hd : l.draw = nextDraw^[log.length + 1] seed)
    (ht : l.timedFrom.isSome = l.sampler.picks l.draw)
    (hj : j + thinnings (log ++ [l.batch s now]) ≤ 32) :
    Sampled j seed (log ++ [l.batch s now]) (l.completed s now).sampler := by
  rw [hd] at ht
  rw [thinnings_append] at hj
  unfold Loop.completed
  cases hf : l.timedFrom with
  | none =>
    rw [hf] at ht
    exact h.skip ht.symm (by simp [Loop.batch, hf]) (by simp [Loop.batch, hf])
  | some from_ =>
    rw [hf] at ht
    have hx : (l.batch s now).sample =
        some (clipCount (now - from_) / s.iteration.benchmark.opsPerCall) := by
      simp [Loop.batch, hf]
    have hthinned : (l.batch s now).thinned = l.sampler.thins := by simp [Loop.batch, hf]
    cases hr : l.sampler.thins with
    | false => exact h.add (by omega) ht.symm hx (hthinned.trans hr) hr
    | true =>
      rw [hthinned, hr, Bool.toNat_true] at hj
      exact h.thin (by omega) ht.symm hx (hthinned.trans hr) hr

/-- Sampled time draws for each batch, and times those that are picked. -/
theorem nextBatch_of_sampleTime (hm : s.mode = .sampleTime) :
    l.nextBatch s now = { l with
      draw := nextDraw l.draw
      timedFrom := if l.sampler.picks (nextDraw l.draw) then some now else none } := by
  unfold Loop.nextBatch
  rw [hm]

theorem draw_completed : (l.completed s now).draw = l.draw := by
  unfold Loop.completed
  split <;> rfl

/-- What a point says of the samples, and of the draw of the batch that is
to come or in progress. -/
def Point.Drawn (j : Nat) (seed : UInt32) (log : List Batch) : Point → Prop
  | .start => False
  | .beginBatch l | .checkDone l =>
    Sampled j seed log l.sampler ∧ l.draw = nextDraw^[log.length] seed
  | .checkSpoiled l _ | .work l _ | .endBatch l => Sampled j seed log l.sampler ∧
      l.draw = nextDraw^[log.length + 1] seed ∧ l.timedFrom.isSome = l.sampler.picks l.draw
  | .stop l _ => Sampled j seed log l.sampler
  | .widenMask l r => Sampled j seed log l.sampler ∧ r.samples = l.sampler.samples

def Drawn (j : Nat) (seed : UInt32) (log : List Batch) (t : Stand Point Tally) : Prop :=
  match t with
  | .point p => p.Drawn j seed log
  | .ended o => ∀ r, o = .ok r → ∃ sampler, Sampled j seed log sampler ∧ r.samples = sampler.samples

theorem drawn_of_yields (hm : s.mode = .sampleTime) (h : (s.step now m p).Yields m m' t)
    (hp : p.Drawn j seed log) (hj : j + thinnings (log ++ p.completes s now) ≤ 32) :
    Drawn j seed (log ++ p.completes s now) t := by
  cases p with
  | start => exact hp.elim
  | beginBatch l =>
    obtain ⟨rfl, rfl⟩ := h
    obtain ⟨hs, hd⟩ := hp
    simp only [Point.completes, List.append_nil]
    change (Point.checkSpoiled (l.nextBatch s now) s.batchSize).Drawn j seed log
    rw [nextBatch_of_sampleTime hm]
    refine ⟨hs, ?_, ?_⟩
    · rw [Function.iterate_succ_apply', hd]
    · cases l.sampler.picks (nextDraw l.draw) <;> simp
  | checkSpoiled l left =>
    simp only [Point.completes, List.append_nil]
    simp only [step] at h
    split at h
    · obtain ⟨rfl, rfl⟩ := h
      exact hp.1
    · obtain ⟨rfl, rfl⟩ := h
      exact hp
  | work l left =>
    simp only [Point.completes, List.append_nil]
    obtain ⟨rfl, r, hr, rfl⟩ := h
    cases r with
    | crashed text => exact nofun
    | refused problem => exact hr.elim
    | returned v =>
      change Drawn j seed log
        (.point (if left ≤ 1 then .endBatch l else .checkSpoiled l (left - 1)))
      split <;> exact hp
  | endBatch l =>
    obtain ⟨rfl, rfl⟩ := h
    obtain ⟨hs, hd, ht⟩ := hp
    have hcompleted := hs.completed hd ht hj
    rw [if_neg (by simp [hm])]
    refine ⟨hcompleted, ?_⟩
    rw [draw_completed, hd, Point.completes, List.length_append]
    rfl
  | checkDone l =>
    simp only [Point.completes, List.append_nil]
    obtain ⟨rfl, rfl⟩ := h
    split
    · exact hp.1
    · exact hp
  | stop l spoiled =>
    simp only [Point.completes, List.append_nil]
    simp only [step, hm, if_true] at h
    obtain ⟨rfl, rfl⟩ := h
    exact ⟨hp, rfl⟩
  | widenMask l r =>
    simp only [Point.completes, List.append_nil]
    obtain ⟨rfl, rfl⟩ := h
    intro r' hr
    cases hr
    exact ⟨l.sampler, hp⟩

theorem Course.drawn {began : Nat} (hm : s.mode = .sampleTime) (hmask : mask.toNat + 1 = 2 ^ j)
    (hc : s.Course (.opening began seed target mask) log t) (hj : j + thinnings log ≤ 32) :
    Drawn j seed log t := by
  induction hc with
  | start => exact ⟨.opening hmask, rfl⟩
  | @step log now m m' p t hc h ih =>
    have hle : thinnings log ≤ thinnings (log ++ p.completes s now) :=
      (List.sublist_append_left log _).countP_le
    exact drawn_of_yields hm h (ih (by omega)) hj

/-- The samples were made of the batches kept, and neighbours of one epoch are
at the same distance. -/
structure EvenlySpaced (gap : Nat) (log : List Batch) (samples : Samples) : Prop where
  samples : samples.toList.map some = (kept log).map (sample? log)
  apart : (kept log).IsChain (Apart gap log)

theorem Sampled.evenlySpaced (h : Sampled j seed log r) :
    EvenlySpaced (2 ^ (j + thinnings log)) log r.samples :=
  ⟨h.samples, h.apart⟩

/-- After any number of thinnings the mask is as wide as it should be, and the samples
are as dense as it says. -/
theorem Course.evenly_spaced {began : Nat} (hm : s.mode = .sampleTime)
    (hmask : mask.toNat + 1 = 2 ^ j) (hc : s.Course (.opening began seed target mask) log t)
    (hj : j + thinnings log ≤ 32) :
    (∀ p l, t = .point p → p.loop? = some l → l.sampler.mask.toNat + 1 = 2 ^ (j + thinnings log) ∧
      EvenlySpaced (2 ^ (j + thinnings log)) log l.sampler.samples) ∧
    ∀ r, t = .ended (.ok r) → EvenlySpaced (2 ^ (j + thinnings log)) log r.samples := by
  have hdrawn := hc.drawn hm hmask hj
  have sampled {l : Loop} (h : Sampled j seed log l.sampler) :
      l.sampler.mask.toNat + 1 = 2 ^ (j + thinnings log) ∧
        EvenlySpaced (2 ^ (j + thinnings log)) log l.sampler.samples := ⟨h.mask, h.evenlySpaced⟩
  refine ⟨fun p l hp hl => ?_, fun r hr => ?_⟩
  · subst hp
    cases p with
    | start => cases hl
    | stop l' spoiled =>
      cases hl
      exact sampled hdrawn
    | _ =>
      cases hl
      exact sampled hdrawn.1
  · subst hr
    obtain ⟨sampler, hs, hr⟩ := hdrawn r rfl
    rw [hr]
    exact hs.evenlySpaced

/-- Takes a step at each reading of the clock, in a memory that stays as it is. -/
def follow (s : Measurement) (m : Memory) :
    List Nat → List Batch → Stand Point Tally → List Batch × Stand Point Tally
  | now :: rest, log, .point p =>
    match s.step now m p with
    | .act _ _ t => follow s m rest (log ++ p.completes s now) t
    | .ask _ k => follow s m rest (log ++ p.completes s now) (k (.returned 0))
    | .blocked => (log, .point p)
  | _, log, t => (log, t)

theorem Course.follow (hc : s.Course l₀ log t) (m : Memory) (readings : List Nat) :
    s.Course l₀ (s.follow m readings log t).1 (s.follow m readings log t).2 := by
  fun_induction Measurement.follow s m readings log t with
  | case1 now rest log p m' notes t hv ih =>
    exact ih (.step (m := m) hc (by rw [hv]; exact ⟨rfl, rfl⟩))
  | case2 now rest log p q k hv ih =>
    have hq : q.Admits (.returned 0) := by cases q <;> trivial
    exact ih (.step (m := m) hc (by rw [hv]; exact ⟨rfl, _, hq, rfl⟩))
  | case3 | case4 => exact hc

/-- Every other batch is timed at first, and after four samples every fourth one. -/
theorem evenly_spaced_coarse :
    let s : Measurement := ⟨{ Execution.duet.iteration 0 0 with batch := .one }, .sampleTime⟩
    let course := s.follow {} (List.range 80) [] (.point (.beginBatch (.opening 0 7 4 1)))
    thinnings course.1 = 1 ∧ kept course.1 = [0, 4, 10, 14] ∧
      ∀ p l, course.2 = .point p → p.loop? = some l →
        EvenlySpaced 4 course.1 l.sampler.samples := by
  intro s course
  have hthinnings : thinnings course.1 = 1 := by decide +kernel
  refine ⟨hthinnings, by decide +kernel, fun p l hp hl => ?_⟩
  have hj : 1 + thinnings course.1 ≤ 32 := by
    rw [hthinnings]
    decide
  have h :=
    (Course.evenly_spaced (j := 1) rfl rfl (Course.start.follow {} (List.range 80)) hj).1 p l hp hl
  rw [hthinnings] at h
  exact h.2

end Measurement
end LoadBench
