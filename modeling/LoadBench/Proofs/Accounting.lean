import LoadBench.Proofs.Calls
import LoadBench.Proofs.Normalization
import LoadBench.Proofs.Path
import LoadBench.Proofs.Run

/-!
# The operations that a report tells of

A report tells how many operations a pass performed, and how many of them in the measured loop. Both
counts come down to the calls of the workload: each stands for so many operations, divided by the
batch (`Pass.accounted`), whether the mode counts calls or whole batches on the way. A loop that was
spoiled in the middle of a batch would count too little, but a pass with such a loop has no report.

Counters stop at the largest count. They never get there as long as the calls themselves can be
counted.
-/

namespace LoadBench
open Pool

def Metric.ops? : Metric → Option Nat
  | .throughput ops .. | .averageTime ops .. => some ops
  | .sampleTime .. | .singleShot .. => none

theorem Tally.mode_metric (r : Tally) (mode : Mode) (ops : Nat) (unit : TimeUnit) :
    (r.metric mode ops unit).mode = mode := by
  cases mode <;> rfl

theorem Tally.unit_metric (r : Tally) (mode : Mode) (ops : Nat) (unit : TimeUnit) :
    (r.metric mode ops unit).unit = unit := by
  cases mode <;> rfl

theorem operationCounts_calls {mode : Mode} {outside n : Nat} {batch ops : Quantity}
    (hm : mode = .throughput ∨ mode = .averageTime) (h : outside + n ≤ maxCount) :
    operationCounts mode outside n batch ops =
      (clipCount ((outside + n) * ops / batch), clipCount (n * ops / batch)) := by
  have ho : outside ≤ maxCount := by omega
  have hn : n ≤ maxCount := by omega
  have hcounts := operationCounts_clipped ho hn mode batch ops
  rcases hm with rfl | rfl <;> exact hcounts

/-- Of `k` whole batches the division by the batch leaves nothing over. -/
theorem operationCounts_batches {mode : Mode} {outside k : Nat} {batch ops : Quantity}
    (hm : mode = .sampleTime ∨ mode = .singleShot) (h : outside + k * batch ≤ maxCount) :
    operationCounts mode outside k batch ops =
      (clipCount ((outside + k * batch) * ops / batch), clipCount (k * batch * ops / batch)) := by
  have ho : outside ≤ maxCount := by omega
  have hk : k ≤ maxCount := by
    have := Nat.le_mul_of_pos_right k batch.pos
    omega
  have hcounts := operationCounts_clipped ho hk mode batch ops
  rw [Nat.mul_right_comm, Nat.mul_div_cancel _ batch.pos]
  rcases hm with rfl | rfl <;> exact hcounts

/-! ### The measured loop -/

namespace Measurement
variable {s : Measurement} {m m' : Memory} {now n left : Nat} {l : Loop} {p : Point}
  {t : Stand Point Tally}

/-- So many calls make up the batches of a loop that was not spoiled. -/
structure Complete (s : Measurement) (n : Nat) (r : Tally) : Prop where
  batches : n = r.windowOps * s.batchSize
  pos : 0 < r.windowOps
  single : s.mode = .singleShot → r.windowOps = 1

/-- `n` calls leave this many of the batch in progress. -/
structure Amid (s : Measurement) (n left : Nat) (l : Loop) : Prop where
  calls : n + left = (l.batches + 1) * s.batchSize
  single : s.mode = .singleShot → l.batches = 0

/-- How many calls have been begun where a loop stands. -/
def Point.Counted (s : Measurement) (calling : Bool) (n : Nat) : Point → Prop
  | .start => n = 0
  | .beginBatch l => s.Amid n s.batchSize l
  | .checkSpoiled l left => s.Amid n left l ∧ 0 < left
  | .work l left => s.Amid n (left - calling.toNat) l ∧ 0 < left
  | .endBatch l => s.Amid n 0 l
  | .checkDone l => s.mode ≠ .singleShot ∧ ∀ now, s.Complete n (l.result now false)
  | .stop l spoiled => spoiled = false → ∀ now, s.Complete n (l.result now false)
  | .widenMask _ r => r.totalOps = 0 ∧ (r.spoiled = false → s.Complete n r)

def Counted (s : Measurement) (n : Nat) (t : Stand Point Tally) : Prop :=
  t.Meets (fun p => p.Counted s false n) fun o =>
    ∀ r, o = .ok r → r.totalOps = 0 ∧ (r.spoiled = false → s.Complete n r)

theorem batches_nextBatch : (l.nextBatch s now).batches = l.batches := by
  unfold Loop.nextBatch
  split <;> rfl

theorem batches_completed : (l.completed s now).batches = clipCount (l.batches + 1) := by
  unfold Loop.completed
  split <;> rfl

theorem Amid.nextBatch (h : s.Amid n left l) : s.Amid n left (l.nextBatch s now) := by
  refine ⟨?_, ?_⟩
  · rw [batches_nextBatch]
    exact h.calls
  · rw [batches_nextBatch]
    exact h.single

theorem Amid.complete (h : s.Amid n 0 l) (hn : n ≤ maxCount) (now' : Nat) :
    s.Complete n ((l.completed s now).result now' false) := by
  have hcalls := h.calls
  have hle : l.batches + 1 ≤ (l.batches + 1) * s.batchSize :=
    Nat.le_mul_of_pos_right _ s.batchSize.pos
  have hbatches : (l.completed s now).batches = l.batches + 1 := by
    rw [batches_completed]
    apply clipCount_of_le
    omega
  refine ⟨?_, ?_, fun hs => ?_⟩
  · change n = (l.completed s now).batches * _
    rw [hbatches]
    omega
  · change 0 < (l.completed s now).batches
    omega
  · change (l.completed s now).batches = 1
    have := h.single hs
    omega

/-- A step of the loop other than the beginning of a call keeps the count. -/
theorem counted_of_yields (h : (s.step now m p).Yields m m' t) (hp : p.Counted s true n)
    (hn : n ≤ maxCount) :
    s.Counted n t := by
  cases p with
  | start =>
    obtain ⟨rfl, rfl⟩ := h
    have hzero : n = 0 := hp
    refine ⟨?_, fun _ => rfl⟩
    simp [hzero]
  | beginBatch l =>
    obtain ⟨rfl, rfl⟩ := h
    exact ⟨hp.nextBatch, s.batchSize.pos⟩
  | checkSpoiled l left =>
    simp only [step] at h
    split at h
    · obtain ⟨rfl, rfl⟩ := h
      intro hs
      cases hs
    · obtain ⟨rfl, rfl⟩ := h
      exact hp
  | work l left =>
    obtain ⟨rfl, r, hr, rfl⟩ := h
    obtain ⟨hamid, hpos⟩ := hp
    cases r with
    | crashed text =>
      intro r hr
      cases hr
    | refused problem => exact hr.elim
    | returned v =>
      have hamid : s.Amid n (left - 1) l := hamid
      change s.Counted n (.point (if left ≤ 1 then .endBatch l else .checkSpoiled l (left - 1)))
      by_cases hl : left ≤ 1
      · rw [if_pos hl]
        rw [show left - 1 = 0 by omega] at hamid
        exact hamid
      · rw [if_neg hl]
        exact ⟨hamid, by omega⟩
  | endBatch l =>
    obtain ⟨rfl, rfl⟩ := h
    by_cases hs : s.mode = .singleShot
    · simp only [hs, if_true]
      exact fun _ now' => hp.complete hn now'
    · simp only [hs, if_false]
      exact ⟨hs, fun now' => hp.complete hn now'⟩
  | checkDone l =>
    obtain ⟨rfl, rfl⟩ := h
    obtain ⟨hs, hcomplete⟩ := hp
    split
    · exact fun _ => hcomplete
    · refine ⟨?_, fun h => absurd h hs⟩
      have : n = l.batches * s.batchSize := (hcomplete 0).batches
      rw [Nat.succ_mul]
      omega
  | stop l spoiled =>
    simp only [step] at h
    split at h
    · obtain ⟨rfl, rfl⟩ := h
      refine ⟨rfl, fun hs => ?_⟩
      have hs : spoiled = false := hs
      subst hs
      exact hp rfl now
    · obtain ⟨rfl, rfl⟩ := h
      intro r hr
      cases hr
      refine ⟨rfl, fun hs => ?_⟩
      have hs : spoiled = false := hs
      subst hs
      exact hp rfl now
  | widenMask l r =>
    obtain ⟨rfl, rfl⟩ := h
    intro r' hr
    cases hr
    exact hp

end Measurement

namespace Pass
variable {a : Pass} {m m' : Memory} {now i w n ops : Nat} {p : Point}
  {t : Stand Point Report} {b b' : Bool}

/-! ### The calls of a pass -/

def calls (i : Nat) (l : List (Stride Point)) : Nat :=
  l.countP fun s => s.who = i && s.events.any Event.isWorkCall

def windowCalls (i : Nat) (l : List (Stride Point)) : Nat :=
  l.countP fun s => s.who = i && s.point.phase = .measuring && s.events.any Event.isWorkCall

/-- Of `w` calls, `n` were made in the measured loop and `ops` in the warm
loops, if there are any. -/
structure Ledger (a : Pass) (w n ops : Nat) : Prop where
  sum : w = ops + n
  single : a.mode = .singleShot → ops = 0

def Settled (a : Pass) (n : Nat) (r : Tally) : Prop :=
  r.spoiled = false → a.measurement.Complete n r

def Point.Counted (a : Pass) (calling : Bool) (w n : Nat) : Point → Prop
  | .begin | .reject | .acquire _ | .arrive .. | .setUp .. => w = 0 ∧ n = 0
  | .enterWarmup _ => a.mode ≠ .singleShot ∧ w = 0 ∧ n = 0
  | .warmupGate _ ops => a.mode ≠ .singleShot ∧ w = ops ∧ n = 0
  | .warmupWork _ ops => a.mode ≠ .singleShot ∧ w = ops + calling.toNat ∧ n = 0
  | .noteStart _ ops => a.Ledger w n ops ∧ n = 0
  | .measure _ ops p => a.Ledger w n ops ∧ p.Counted a.measurement calling n
  | .noteStop _ ops r => a.Ledger w n ops ∧ r.totalOps = 0 ∧ a.Settled n r
  | .enterWarmdown _ ops r | .warmdownGate _ ops r =>
    a.mode ≠ .singleShot ∧ w = ops + n ∧ r.totalOps = 0 ∧ a.Settled n r
  | .warmdownWork _ ops r =>
    a.mode ≠ .singleShot ∧ w = ops + n + calling.toNat ∧ r.totalOps = 0 ∧ a.Settled n r
  | .depart _ r _ | .checkInterrupted _ r | .checkFailed _ r | .force _ r | .tearDown _ r _
  | .enterRelease r | .release r _ | .finish _ r => a.Ledger w n r.totalOps ∧ a.Settled n r
  | .fail .. | .condemn .. => True

def Counted (a : Pass) (calling : Bool) (w n : Nat) (t : Stand Point Report) : Prop :=
  t.Meets (fun p => p.Counted a calling w n) fun o => ∀ v, o = .ok v →
    ∃ r : Tally, v = r.report a.mode a.iteration ∧ a.Ledger w n r.totalOps ∧
      a.measurement.Complete n r

theorem counted_onward {α : Type} {phase : Phase} {next : α → Point} {o : Outcome α}
    (hn : ∀ v, o = .ok v → (next v).Counted a b w n) : Counted a b w n (onward phase next o) := by
  cases o with
  | ok v => exact hn v rfl
  | failed e | crashed text => trivial

theorem Ledger.addOps (h : a.Ledger w n ops) (hw : w ≤ maxCount) {r : Tally} (hr : r.totalOps = 0) :
    a.Ledger w n (r.addOps ops).totalOps := by
  have hops : (r.addOps ops).totalOps = ops := by
    change clipCount (r.totalOps + ops) = ops
    rw [hr, Nat.zero_add]
    apply clipCount_of_le
    have := h.sum
    omega
  rw [hops]
  exact h

theorem Settled.addOps {r : Tally} (h : a.Settled n r) (ops : Nat) : a.Settled n (r.addOps ops) :=
  fun hs =>
  ⟨(h hs).batches, (h hs).pos, (h hs).single⟩

theorem counted_warmWork {phase : Phase} {next : Point} (h : (warmWork phase next).Yields m m' t)
    (hn : next.Counted a false w n) : Counted a false w n t := by
  obtain ⟨-, rfl | ⟨text, rfl⟩⟩ := warmWork_yields h
  · exact hn
  · trivial

theorem counted_of_yields (h : (a.step now m p).Yields m m' t) (hp : p.Counted a true w n)
    (hw : w ≤ maxCount) :
    Counted a false w n t := by
  cases p with
  | begin =>
    obtain ⟨rfl, rfl⟩ := h
    split <;> exact hp
  | reject =>
    obtain ⟨rfl, rfl⟩ := h
    trivial
  | acquire p | arrive f p =>
    obtain ⟨u, -, rfl⟩ := Move.yields_andThen.mp h
    cases u with
    | point q => exact hp
    | ended o => exact counted_onward fun _ _ => hp
  | setUp f p =>
    obtain ⟨u, -, rfl⟩ := Move.yields_andThen.mp h
    cases u with
    | point q => exact hp
    | ended o =>
      refine counted_onward fun _ _ => ?_
      obtain ⟨rfl, rfl⟩ := hp
      unfold afterSetUp
      split
      · rename_i hm
        exact ⟨by simpa [Mode.hasWarmLoops] using hm, rfl, rfl⟩
      · exact ⟨⟨rfl, fun _ => rfl⟩, rfl⟩
  | enterWarmup f =>
    obtain ⟨rfl, rfl⟩ := h
    exact hp
  | warmupGate f ops =>
    obtain ⟨rfl, rfl⟩ := h
    obtain ⟨hm, rfl, rfl⟩ := hp
    split
    · exact ⟨hm, rfl, rfl⟩
    · exact ⟨⟨rfl, fun hs => absurd hs hm⟩, rfl⟩
  | warmupWork f ops =>
    obtain ⟨hm, rfl, rfl⟩ := hp
    exact counted_warmWork h ⟨hm, (clipCount_of_le hw).symm, rfl⟩
  | noteStart f ops =>
    obtain ⟨rfl, rfl⟩ := h
    exact hp
  | measure f ops p =>
    obtain ⟨u, hu, rfl⟩ := Move.yields_andThen.mp h
    obtain ⟨hledger, hp⟩ := hp
    have hn : n ≤ maxCount := by
      have := hledger.sum
      omega
    have hu := Measurement.counted_of_yields hu hp hn
    cases u with
    | point q => exact ⟨hledger, hu⟩
    | ended o => exact counted_onward fun r hr => ⟨hledger, hu r hr⟩
  | noteStop f ops r =>
    obtain ⟨rfl, rfl⟩ := h
    obtain ⟨hledger, hr, hs⟩ := hp
    unfold afterMeasured
    split
    · rename_i hm
      exact ⟨by simpa [Mode.hasWarmLoops] using hm, hledger.sum, hr, hs⟩
    · exact ⟨hledger.addOps hw hr, hs.addOps ops⟩
  | enterWarmdown f ops r =>
    obtain ⟨rfl, rfl⟩ := h
    exact hp
  | warmdownGate f ops r =>
    obtain ⟨rfl, rfl⟩ := h
    obtain ⟨hm, hsum, hr, hs⟩ := hp
    split
    · exact ⟨hm, hsum, hr, hs⟩
    · have hledger : a.Ledger w n ops := ⟨hsum, fun h => absurd h hm⟩
      exact ⟨hledger.addOps hw hr, hs.addOps ops⟩
  | warmdownWork f ops r =>
    obtain ⟨hm, hsum, hr, hs⟩ := hp
    have hsum : w = ops + n + 1 := hsum
    refine counted_warmWork h ⟨hm, ?_, hr, hs⟩
    rw [clipCount_of_le (by omega)]
    omega
  | depart f r p =>
    obtain ⟨u, -, rfl⟩ := Move.yields_andThen.mp h
    cases u with
    | point q => exact hp
    | ended o =>
      cases o with
      | ok v | failed e => exact hp
      | crashed text => trivial
  | checkInterrupted f r =>
    obtain ⟨rfl, rfl⟩ := h
    split
    · exact hp
    · trivial
  | checkFailed f r =>
    simp only [step] at h
    split at h
    · obtain ⟨rfl, rfl⟩ := h
      trivial
    · obtain ⟨rfl, rfl⟩ := h
      exact hp
  | force f r | enterRelease r =>
    obtain ⟨rfl, rfl⟩ := h
    exact hp
  | tearDown f r p =>
    obtain ⟨u, -, rfl⟩ := Move.yields_andThen.mp h
    cases u with
    | point q => exact hp
    | ended o =>
      refine counted_onward fun _ _ => ?_
      unfold afterTearDown
      split <;> exact hp
  | release r p =>
    obtain ⟨u, -, rfl⟩ := Move.yields_andThen.mp h
    cases u with
    | point q => exact hp
    | ended o => exact counted_onward fun _ _ => hp
  | finish source r =>
    simp only [step] at h
    split at h
    · obtain ⟨rfl, rfl⟩ := h
      trivial
    · rename_i hr
      obtain ⟨rfl, rfl⟩ := h
      simp only [Bool.or_eq_true, not_or, Bool.not_eq_true] at hr
      intro v hv
      cases hv
      exact ⟨r, rfl, hp.1, hp.2 hr.1⟩
  | fail phase e | condemn phase text =>
    obtain ⟨rfl, rfl⟩ := h
    intro v hv
    cases hv

/-- Outside of a call of the workload it does not matter whether a call is in progress. -/
theorem counted_of_not_work (hp : p.isWork = false) (h : p.Counted a b w n) :
    p.Counted a b' w n := by
  cases p with
  | warmupWork | warmdownWork => cases hp
  | measure f ops p =>
    cases p with
    | work => cases hp
    | _ => exact h
  | _ => exact h

/-- The beginning of a call of the workload is counted, in the measured loop also there. -/
theorem counted_called (hp : p.isWork = true) (h : p.Counted a false w n) :
    p.Counted a true (w + 1) (n + (decide (p.phase = .measuring)).toNat) := by
  cases p with
  | warmupWork f ops =>
    obtain ⟨hm, hsum, hn⟩ := h
    refine ⟨hm, ?_, hn⟩
    rw [hsum]
    rfl
  | warmdownWork f ops r =>
    obtain ⟨hm, hsum, hr, hs⟩ := h
    refine ⟨hm, ?_, hr, hs⟩
    rw [hsum]
    rfl
  | measure f ops p =>
    cases p with
    | work l left =>
      obtain ⟨⟨hsum, hsingle⟩, ⟨hcalls, hbatches⟩, hpos⟩ := h
      have hcalls : n + left = (l.batches + 1) * a.measurement.batchSize := hcalls
      refine ⟨⟨?_, hsingle⟩, ⟨?_, hbatches⟩, hpos⟩
      · change w + 1 = ops + (n + 1)
        omega
      · change n + 1 + (left - 1) = _
        omega
    | _ => cases hp
  | _ => cases hp

theorem isWork_of_ask {q : Request} {k : Reply → Stand Point Report}
    (h : a.step now m p = .ask q k) :
    p.isWork = (Event.called q).isWorkCall := by
  have hcall : p.isWork = true ↔ a.call? m p = some .work := ⟨call?_of_isWork, isWork_of_call⟩
  rw [Bool.eq_iff_iff, hcall]
  rcases call?_of_ask h with ⟨hc, -⟩ | ⟨hc, d, rfl⟩
  · rw [hc]
    cases q <;> simp [Event.isWorkCall]
  · simp [hc, Event.isWorkCall]

theorem isWork_of_act {notes : List Note} (h : a.step now m p = .act m' notes t) :
    p.isWork = false := by
  cases hp : p.isWork with
  | false => rfl
  | true => cases (call?_of_act h).symm.trans (call?_of_isWork hp)

/-! ### Along a path -/

variable {passes : Nat → Pass} {others : Memory → Memory → Prop} {l x : List (Stride Point)}
  {w₀ v v' : Pool Point Report}

theorem calls_append : calls i (l ++ x) = calls i l + calls i x := List.countP_append

theorem windowCalls_append : windowCalls i (l ++ x) = windowCalls i l + windowCalls i x :=
  List.countP_append

theorem calls_stride {j : Nat} {es : List Event} :
    calls i [⟨j, p, es⟩] = (decide (j = i) && es.any Event.isWorkCall).toNat := by
  unfold calls
  rw [List.countP_singleton]
  cases decide (j = i) && es.any Event.isWorkCall <;> rfl

theorem windowCalls_stride {j : Nat} {es : List Event} : windowCalls i [⟨j, p, es⟩] =
    (decide (j = i) && decide (p.phase = .measuring) && es.any Event.isWorkCall).toNat := by
  unfold windowCalls
  rw [List.countP_singleton]
  cases decide (j = i) && decide (p.phase = .measuring) && es.any Event.isWorkCall <;> rfl

theorem counted_of_advanced {s : Strand Point Report} {es : List Event}
    (h : Strand.Advanced (a.step now m) m ⟨.point p, b⟩ m' es s) (hp : p.Counted a b w n)
    (hw : w ≤ maxCount) :
    Counted a s.calling (w + (es.any Event.isWorkCall).toNat)
      (n + (decide (p.phase = .measuring) && es.any Event.isWorkCall).toNat) s.stand := by
  cases h with
  | @act _ m' notes t hp' hv =>
    cases hp'
    have hquiet : (notes.map Event.noted).any Event.isWorkCall = false := by
      simp [Event.isWorkCall]
    rw [hquiet, Bool.and_false]
    have hwork := isWork_of_act hv
    have hp : p.Counted a true w n := counted_of_not_work hwork hp
    exact counted_of_yields (by rw [hv]; exact ⟨rfl, rfl⟩) hp hw
  | @call _ q k hp' hv hc =>
    cases hp'
    cases hc
    have hwork := isWork_of_ask hv
    have hany : [Event.called q].any Event.isWorkCall = p.isWork := by simp [hwork]
    rw [hany]
    cases hq : p.isWork with
    | true =>
      rw [Bool.and_true]
      exact counted_called hq hp
    | false =>
      rw [Bool.and_false]
      exact counted_of_not_work hq hp
  | @reply _ q k r hp' hv hc hr =>
    cases hp'
    cases hc
    have hquiet : [Event.answered q r].any Event.isWorkCall = false := by simp [Event.isWorkCall]
    rw [hquiet, Bool.and_false]
    exact counted_of_yields (by rw [hv]; exact ⟨rfl, r, hr, rfl⟩) hp hw

theorem counted_step (h : ∀ s, v.strands[i]? = some s → calls i l ≤ maxCount →
      Counted (passes i) s.calling (calls i l) (windowCalls i l) s.stand)
    (hs : Stepped (company passes others) v x v') {s : Strand Point Report}
    (hi : v'.strands[i]? = some s) (hw : calls i (l ++ x) ≤ maxCount) :
    Counted (passes i) s.calling (calls i (l ++ x)) (windowCalls i (l ++ x)) s.stand := by
  rw [calls_append] at hw ⊢
  rw [windowCalls_append]
  cases hs with
  | others ho => exact h s hi hw
  | @step j now p b m' es s' hj ha =>
    rw [calls_stride] at hw ⊢
    rw [windowCalls_stride]
    rw [List.getElem?_set] at hi
    by_cases hij : j = i
    · subst hij
      simp only [if_true, Option.ite_none_right_eq_some, Option.some.injEq] at hi
      obtain ⟨-, rfl⟩ := hi
      have hold := h _ hj (by omega)
      simpa using counted_of_advanced ha hold (by omega)
    · simp only [hij, if_false] at hi
      simp only [hij, decide_false, Bool.false_and]
      exact h s hi (by omega)

theorem counted_path {n : Nat} {m₀ : Memory}
    (hp : Path (company passes others) (gather n (fun _ => .begin) m₀) l v)
    {s : Strand Point Report} (hi : v.strands[i]? = some s) (hw : calls i l ≤ maxCount) :
    Counted (passes i) s.calling (calls i l) (windowCalls i l) s.stand := by
  refine hp.induct (P := fun l v => ∀ s, v.strands[i]? = some s → calls i l ≤ maxCount →
    Counted (passes i) s.calling (calls i l) (windowCalls i l) s.stand) ?_ ?_ s hi hw
  · intro s hs _
    cases getElem?_gather hs
    exact ⟨rfl, rfl⟩
  · intro l v x v' _ h hs s hi hw
    exact counted_step h hs hi hw

/-! ### What is reported -/

/-- The report of a pass that has called the workload `w` times, and `n` times
in the measured loop. -/
structure Accounted (a : Pass) (w n : Nat) (r : Report) : Prop where
  total : r.totalOps = clipCount (w * a.iteration.benchmark.opsPerCall / a.iteration.batch)
  window : r.windowOps = clipCount (n * a.iteration.benchmark.opsPerCall / a.iteration.batch)
  batches : a.mode = .sampleTime ∨ a.mode = .singleShot → ∃ k, 0 < k ∧ n = k * a.iteration.batch
  single : a.mode = .singleShot → n = a.iteration.batch ∧ w = a.iteration.batch
  /-- There is one metric, the one of the mode. -/
  metric : ∃ x, r.metrics = [⟨.primary, a.iteration.benchmark.label, x⟩] ∧ x.mode = a.mode ∧
    x.unit = a.iteration.benchmark.unit
  shown : ∀ x ∈ r.metrics, ∀ ops, x.metric.ops? = some ops → ops = r.windowOps

theorem windowOps_of_complete {r : Tally} (hr : a.measurement.Complete n r) :
    (a.mode = .throughput ∨ a.mode = .averageTime) ∧ n = r.windowOps ∨
      (a.mode = .sampleTime ∨ a.mode = .singleShot) ∧ n = r.windowOps * a.iteration.batch := by
  have hbatches := hr.batches
  cases hm : a.mode with
  | throughput | averageTime =>
    refine .inl ⟨by simp, ?_⟩
    simpa [Measurement.batchSize, measurement, hm, Quantity.one] using hbatches
  | sampleTime | singleShot =>
    refine .inr ⟨by simp, ?_⟩
    simpa [Measurement.batchSize, measurement, hm] using hbatches

/-- Whole batches and loose calls come to the same number of operations. -/
theorem operationCounts_eq (hw : w ≤ maxCount) {r : Tally} (hledger : a.Ledger w n r.totalOps)
    (hr : a.measurement.Complete n r) :
    operationCounts a.mode r.totalOps r.windowOps a.iteration.batch
      a.iteration.benchmark.opsPerCall =
      (clipCount (w * a.iteration.benchmark.opsPerCall / a.iteration.batch),
        clipCount (n * a.iteration.benchmark.opsPerCall / a.iteration.batch)) := by
  have hsum := hledger.sum
  rcases windowOps_of_complete hr with ⟨hm, rfl⟩ | ⟨hm, rfl⟩
  · rw [operationCounts_calls hm (hsum ▸ hw), ← hsum]
  · rw [operationCounts_batches hm (hsum ▸ hw), ← hsum]

theorem accounted_report (hw : w ≤ maxCount) {r : Tally} (hledger : a.Ledger w n r.totalOps)
    (hr : a.measurement.Complete n r) : a.Accounted w n (r.report a.mode a.iteration) := by
  have hcounts := operationCounts_eq hw hledger hr
  have hsum := hledger.sum
  have whole (hm : a.mode = .sampleTime ∨ a.mode = .singleShot) :
      n = r.windowOps * a.iteration.batch := by
    rcases windowOps_of_complete hr with ⟨hm', -⟩ | ⟨-, hn⟩
    · rcases hm with hm | hm <;> simp [hm] at hm'
    · exact hn
  refine ⟨?_, ?_, fun hm => ⟨r.windowOps, hr.pos, whole hm⟩, fun hm => ?_, ⟨_, rfl, ?_, ?_⟩, ?_⟩
  · exact congrArg Prod.fst hcounts
  · exact congrArg Prod.snd hcounts
  · have hone := hr.single hm
    have hzero := hledger.single hm
    have hn := whole (.inr hm)
    rw [hone, Nat.one_mul] at hn
    exact ⟨hn, by omega⟩
  · exact Tally.mode_metric ..
  · exact Tally.unit_metric ..
  · intro x hx ops hops
    cases List.mem_singleton.mp hx
    unfold Tally.metric at hops
    split at hops <;> cases hops <;> rfl

/-- The operations that a report tells of are those that the calls of its pass stand for. -/
theorem accounted {k : Nat} {m₀ : Memory}
    (hp : Path (company passes others) (gather k (fun _ => .begin) m₀) l v) {r : Report}
    (ho : v.outcome? i = some (.ok r)) (hw : calls i l ≤ maxCount) :
    (passes i).Accounted (calls i l) (windowCalls i l) r := by
  obtain ⟨b, hi⟩ := outcome?_eq_some.mp ho
  obtain ⟨r', rfl, hledger, hcomplete⟩ := counted_path hp hi hw r rfl
  exact accounted_report hw hledger hcomplete

/-- Alone in an iteration with batches of three calls of six operations, whose window is
closed from the start. -/
def triple (mode : Mode) (_ : Nat) : Pass where
  iteration := { Execution.duet.iteration 0 0 with
    benchmark := { Benchmark.plain "bench" mode with opsPerCall := (Quantity.ofNat? 6).getD .one }
    batch := (Quantity.ofNat? 3).getD .one
    threads := .one }
  site := Execution.duet.site
  seat := ⟨0, .one, 0⟩
  mode := mode

/-- Such a pass has a report in every mode. Sampled time makes a whole batch of calls, throughput a
single one, and its metric shows the operations of that. -/
theorem accounted_triple :
    let m₀ (mode : Mode) := ({} : Memory).signal (triple mode 0).iteration fun s =>
      s.freeWarmup.close.freeWarmdown
    let path (mode : Mode) :=
      (gather 1 (fun _ => .begin) (m₀ mode)).walk (company (triple mode) fun _ _ => False)
        (List.replicate 64 (0, 0, .returned 0))
    (∀ mode, ∃ r, (path mode).2.outcome? 0 = some (.ok r) ∧
        (triple mode 0).Accounted (calls 0 (path mode).1) (windowCalls 0 (path mode).1) r) ∧
      (∃ r, (path .sampleTime).2.outcome? 0 = some (.ok r) ∧ calls 0 (path .sampleTime).1 = 3 ∧
        r.totalOps = 6) ∧
      ∃ r, (path .throughput).2.outcome? 0 = some (.ok r) ∧ calls 0 (path .throughput).1 = 1 ∧
        r.metrics.map (fun x => x.metric.ops?) = [some 2] := by
  intro m₀ path
  have hcalls (mode : Mode) : calls 0 (path mode).1 ≤ maxCount := by cases mode <;> decide +kernel
  have hended (mode : Mode) : ∃ r, (path mode).2.outcome? 0 = some (.ok r) := by
    have hok : ((path mode).2.outcome? 0).any (fun o => o.isOk) = true := by
      cases mode <;> decide +kernel
    obtain ⟨o, ho, hok⟩ := (Option.any_eq_true _ _).mp hok
    cases o with
    | ok r => exact ⟨r, ho⟩
    | failed e | crashed text => cases hok
  have haccounted (mode : Mode) (r : Report) (ho : (path mode).2.outcome? 0 = some (.ok r)) :
      (triple mode 0).Accounted (calls 0 (path mode).1) (windowCalls 0 (path mode).1) r :=
    accounted (path_walk ..) ho (hcalls mode)
  refine ⟨fun mode => ?_, ?_, ?_⟩
  · obtain ⟨r, ho⟩ := hended mode
    exact ⟨r, ho, haccounted mode r ho⟩
  · obtain ⟨r, ho⟩ := hended .sampleTime
    have hthree : calls 0 (path .sampleTime).1 = 3 := by decide +kernel
    have htotal := (haccounted .sampleTime r ho).total
    rw [hthree] at htotal
    exact ⟨r, ho, hthree, htotal⟩
  · obtain ⟨r, ho⟩ := hended .throughput
    have hone : calls 0 (path .throughput).1 = 1 := by decide +kernel
    have hwindow : windowCalls 0 (path .throughput).1 = 1 := by decide +kernel
    have h := haccounted .throughput r ho
    rw [hwindow] at h
    obtain ⟨x, hmetrics, hmode, -⟩ := h.metric
    have hshown := h.shown _ (hmetrics ▸ List.mem_singleton_self _)
    refine ⟨r, ho, hone, ?_⟩
    rw [hmetrics]
    cases x with
    | throughput ops elapsed unit =>
      exact congrArg (fun n => [some n]) ((hshown ops rfl).trans h.window)
    | averageTime | sampleTime | singleShot => cases hmode

end Pass
end LoadBench
