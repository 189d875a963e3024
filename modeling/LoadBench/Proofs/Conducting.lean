import LoadBench.Proofs.Excuse
import LoadBench.Conductor

/-!
# What the conductor can do

The relation `Step` of the conductor, and what the threads of its iteration can rely on:
a warm loop is let go only when every thread has entered it, unless the iteration is halted, and
measurement is spoiled only in an iteration that is halted (`Conductor.Reliable`).
-/

namespace LoadBench
namespace Conductor

inductive Step (c : Conductor) (m : Memory) : Point → Memory → Stand Point Unit → Prop where
  | gather {p q : Wait.Point} : Step c m (.gather p) m (.point (.gather q))
  | gathered {p : Wait.Point} (hn : c.iteration.threads ≤ (m.signalsOf c.iteration).warmupReady) :
      Step c m (.gather p) m (.point .openWindow)
  | notGathered {p : Wait.Point} (hh : m.Halted c.iteration) :
      Step c m (.gather p) m (.point .spoilWarmup)
  | openWindow : Step c m .openWindow (m.signal c.iteration Signals.freeWarmup) (.point .markWindow)
  | markWindow {stop : Option Nat} : Step c m .markWindow m (.point (.window stop))
  | doze {stop : Nat} {d : Span} : Step c m (.window (some stop)) m (.point (.doze stop d))
  | windowOver {stop : Option Nat} : Step c m (.window stop) m (.point .close)
  | slept {stop : Nat} {d : Span} : Step c m (.doze stop d) m (.point (.watch stop))
  | foundFailed {stop : Nat} (hf : m.hasFailed c.iteration = true) :
      Step c m (.watch stop) m (.point .spoilWarmup)
  | foundRunning {stop : Nat} (hf : m.hasFailed c.iteration = false) :
      Step c m (.watch stop) m (.point (.window (some stop)))
  | close : Step c m .close (m.signal c.iteration Signals.close) (.point .markDeadline)
  | markDeadline {deadline : Option Nat} {p : Wait.Point} :
      Step c m .markDeadline m (.point (.drain deadline p))
  | drain {deadline : Option Nat} {p q : Wait.Point} :
      Step c m (.drain deadline p) m (.point (.drain deadline q))
  | drained {deadline : Option Nat} {p : Wait.Point} :
      Step c m (.drain deadline p) m (.point .judge)
  | notDrained {deadline : Option Nat} {p : Wait.Point} (hh : m.Halted c.iteration) :
      Step c m (.drain deadline p) m (.point .spoilWarmup)
  | timedOut (hn : (m.signalsOf c.iteration).warmdownReady < c.iteration.threads) :
      Step c m .judge m (.point .interrupt)
  | inTime (hn : c.iteration.threads ≤ (m.signalsOf c.iteration).warmdownReady) :
      Step c m .judge m (.point .freeWarmdown)
  | interrupt : Step c m .interrupt (m.signal c.iteration Signals.interrupt) (.point .spoilWarmup)
  | spoilWarmup :
      Step c m .spoilWarmup (m.signal c.iteration Signals.freeWarmup) (.point .spoilWindow)
  | spoilWindow : Step c m .spoilWindow (m.signal c.iteration Signals.close) (.point .spoil)
  | spoil : Step c m .spoil (m.signal c.iteration Signals.spoil) (.point .spoilWarmdown)
  | spoilWarmdown :
      Step c m .spoilWarmdown (m.signal c.iteration Signals.freeWarmdown) (.ended (.ok ()))
  | freeWarmdown :
      Step c m .freeWarmdown (m.signal c.iteration Signals.freeWarmdown) (.ended (.ok ()))
  | freeWarmup : Step c m .freeWarmup (m.signal c.iteration Signals.freeWarmup) (.point .freeWindow)
  | freeWindow : Step c m .freeWindow (m.signal c.iteration Signals.close) (.point .freeWarmdown)

theorem step_of_yields {c : Conductor} {now : Nat} {m m' : Memory} {p : Point}
    {s : Stand Point Unit} (h : (c.step now m p).Yields m m' s) : Step c m p m' s := by
  cases p with
  | gather p =>
    obtain ⟨t, ht, rfl⟩ := Move.yields_andThen.mp h
    obtain ⟨rfl, ⟨q, rfl⟩ | ⟨rfl, n, hn⟩ | ⟨rfl, hh⟩⟩ := Wait.yields_cases ht
    · exact .gather
    · exact .gathered (by simpa [gathering] using hn)
    · exact .notGathered hh
  | openWindow =>
    obtain ⟨rfl, rfl⟩ := h
    exact .openWindow
  | markWindow =>
    obtain ⟨rfl, rfl⟩ := h
    exact .markWindow
  | window stop =>
    cases stop with
    | none =>
      obtain ⟨rfl, rfl⟩ := h
      exact .windowOver
    | some stop =>
      simp only [step] at h
      split at h
      · obtain ⟨rfl, rfl⟩ := h
        exact .doze
      · obtain ⟨rfl, rfl⟩ := h
        exact .windowOver
  | doze stop d =>
    obtain ⟨rfl, _, _, rfl⟩ := h
    exact .slept
  | watch stop =>
    obtain ⟨rfl, rfl⟩ := h
    cases hf : m'.hasFailed c.iteration with
    | true => simpa [hf] using Step.foundFailed hf
    | false => simpa [hf] using Step.foundRunning hf
  | close =>
    obtain ⟨rfl, rfl⟩ := h
    exact .close
  | markDeadline =>
    obtain ⟨rfl, rfl⟩ := h
    exact .markDeadline
  | drain deadline p =>
    obtain ⟨t, ht, rfl⟩ := Move.yields_andThen.mp h
    obtain ⟨rfl, ⟨q, rfl⟩ | ⟨rfl, n, hn⟩ | ⟨rfl, hh⟩⟩ := Wait.yields_cases ht
    · exact .drain
    · exact .drained
    · exact .notDrained hh
  | judge =>
    simp only [step] at h
    split at h
    · rename_i hn
      obtain ⟨rfl, rfl⟩ := h
      exact .timedOut hn
    · rename_i hn
      obtain ⟨rfl, rfl⟩ := h
      exact .inTime (Nat.le_of_not_lt hn)
  | interrupt =>
    obtain ⟨rfl, rfl⟩ := h
    exact .interrupt
  | spoilWarmup =>
    obtain ⟨rfl, rfl⟩ := h
    exact .spoilWarmup
  | spoilWindow =>
    obtain ⟨rfl, rfl⟩ := h
    exact .spoilWindow
  | spoil =>
    obtain ⟨rfl, rfl⟩ := h
    exact .spoil
  | spoilWarmdown =>
    obtain ⟨rfl, rfl⟩ := h
    exact .spoilWarmdown
  | freeWarmdown =>
    obtain ⟨rfl, rfl⟩ := h
    exact .freeWarmdown
  | freeWarmup =>
    obtain ⟨rfl, rfl⟩ := h
    exact .freeWarmup
  | freeWindow =>
    obtain ⟨rfl, rfl⟩ := h
    exact .freeWindow

structure Reliable (c : Conductor) (m : Memory) : Prop where
  warmup : c.hasWarmLoops = true → (m.signalsOf c.iteration).warmupHeld = false →
    m.Halted c.iteration ∨ c.iteration.threads ≤ (m.signalsOf c.iteration).warmupReady
  warmdown : c.hasWarmLoops = true → (m.signalsOf c.iteration).warmdownHeld = false →
    m.Halted c.iteration ∨ c.iteration.threads ≤ (m.signalsOf c.iteration).warmdownReady
  spoiled : (m.signalsOf c.iteration).spoiled = true → m.Halted c.iteration
  interrupted : m.isInterrupted c.iteration = true →
    c.hasWarmLoops = true ∧ c.iteration.threads ≤ (m.signalsOf c.iteration).warmupReady

def Knows (c : Conductor) (m : Memory) : Stand Point Unit → Prop
  | .point (.gather _) => c.hasWarmLoops = true ∧ (m.signalsOf c.iteration).warmdownHeld = true
  | .point .freeWarmup | .point .freeWindow => c.hasWarmLoops = false
  | .point .freeWarmdown => c.hasWarmLoops = true →
      c.iteration.threads ≤ (m.signalsOf c.iteration).warmdownReady
  | .point .spoilWarmup | .point .spoilWindow | .point .spoil | .point .spoilWarmdown =>
      m.Halted c.iteration
  | .point _ => c.hasWarmLoops = true ∧ (m.signalsOf c.iteration).warmdownHeld = true ∧
      c.iteration.threads ≤ (m.signalsOf c.iteration).warmupReady
  | .ended _ => True

section
variable {c : Conductor} {m m' : Memory} {p : Point} {s : Stand Point Unit}

theorem Step.hasFailed (h : c.Step m p m' s) (d : Iteration) : m'.hasFailed d = m.hasFailed d := by
  cases h <;> rfl

/-- The conductor is not one of those that are counted. -/
theorem Step.count (h : c.Step m p m' s) (k : Checkpoint) :
    k.count (m'.signalsOf c.iteration) = k.count (m.signalsOf c.iteration) := by
  have signalled {f : Signals → Signals} (hf : ∀ s, k.count (f s) = k.count s) :
      k.count ((m.signal c.iteration f).signalsOf c.iteration) =
        k.count (m.signalsOf c.iteration) := by
    rw [Memory.signalsOf_signal_self, hf]
  cases h with
  | openWindow | close | interrupt | spoilWarmup | spoilWindow | spoil | spoilWarmdown
  | freeWarmdown | freeWarmup | freeWindow => exact signalled fun s => by cases k <;> rfl
  | _ => rfl

theorem Step.later (h : c.Step m p m' s) : m.Later c.iteration m' := by
  have signalled {f : Signals → Signals} (h₁ : ∀ s, s.interrupted = true → (f s).interrupted = true)
      (h₂ : ∀ s, s.warmupHeld = false → (f s).warmupHeld = false)
      (h₃ : ∀ s, s.warmdownHeld = false → (f s).warmdownHeld = false) :
      m.Later c.iteration (m.signal c.iteration f) := by
    constructor
    · exact id
    · unfold Memory.isInterrupted
      rw [Memory.signalsOf_signal_self]
      exact h₁ _
    · rw [Memory.signalsOf_signal_self]
      exact h₂ _
    · rw [Memory.signalsOf_signal_self]
      exact h₃ _
  cases h with
  | interrupt => exact signalled (fun _ _ => rfl) (fun _ => id) (fun _ => id)
  | openWindow | spoilWarmup | freeWarmup =>
    exact signalled (fun _ => id) (fun _ _ => rfl) (fun _ => id)
  | spoilWarmdown | freeWarmdown => exact signalled (fun _ => id) (fun _ => id) (fun _ _ => rfl)
  | close | spoilWindow | freeWindow | spoil =>
    exact signalled (fun _ => id) (fun _ => id) (fun _ => id)
  | _ => exact ⟨id, id, id, id⟩

/-- Members may count on, and so may the conductor, what they could count on
before a member's step. -/
theorem Reliable.attended (h : c.Reliable m) (hl : m.Later c.iteration m')
    (ha : (m.signalsOf c.iteration).Attended (m'.signalsOf c.iteration)) : c.Reliable m' where
  warmup hm hw := (h.warmup hm (ha.warmupHeld.symm.trans hw)).imp hl.halted
    fun hn => Nat.le_trans hn ha.warmupReady
  warmdown hm hw := (h.warmdown hm (ha.warmdownHeld.symm.trans hw)).imp hl.halted
    fun hn => Nat.le_trans hn ha.warmdownReady
  spoiled hs := hl.halted (h.spoiled (ha.spoiled.symm.trans hs))
  interrupted hi := (h.interrupted (ha.interrupted.symm.trans hi)).imp id
    fun hn => Nat.le_trans hn ha.warmupReady

theorem Knows.attended (h : c.Knows m s) (hl : m.Later c.iteration m')
    (ha : (m.signalsOf c.iteration).Attended (m'.signalsOf c.iteration)) : c.Knows m' s := by
  cases s with
  | ended r => trivial
  | point p =>
    cases p with
    | gather p => exact ⟨h.1, ha.warmdownHeld.trans h.2⟩
    | freeWarmup | freeWindow => exact h
    | freeWarmdown => exact fun hm => Nat.le_trans (h hm) ha.warmdownReady
    | spoilWarmup | spoilWindow | spoil | spoilWarmdown => exact hl.halted h
    | _ => exact ⟨h.1, ha.warmdownHeld.trans h.2.1, Nat.le_trans h.2.2 ha.warmupReady⟩

/-- What has to be said for new signals that count the same threads. -/
theorem Reliable.signalled {f : Signals → Signals} (h : c.Reliable m)
    (hl : m.Later c.iteration (m.signal c.iteration f))
    (hn : (f (m.signalsOf c.iteration)).warmupReady = (m.signalsOf c.iteration).warmupReady ∧
      (f (m.signalsOf c.iteration)).warmdownReady = (m.signalsOf c.iteration).warmdownReady)
    (warmup : c.hasWarmLoops = true → (f (m.signalsOf c.iteration)).warmupHeld = false →
      (m.signalsOf c.iteration).warmupHeld = false ∨ m.Halted c.iteration ∨
        c.iteration.threads ≤ (m.signalsOf c.iteration).warmupReady)
    (warmdown : c.hasWarmLoops = true → (f (m.signalsOf c.iteration)).warmdownHeld = false →
      (m.signalsOf c.iteration).warmdownHeld = false ∨ m.Halted c.iteration ∨
        c.iteration.threads ≤ (m.signalsOf c.iteration).warmdownReady)
    (spoiled : (f (m.signalsOf c.iteration)).spoiled = true →
      (m.signalsOf c.iteration).spoiled = true ∨ m.Halted c.iteration)
    (interrupted : (f (m.signalsOf c.iteration)).interrupted = true →
      (m.signalsOf c.iteration).interrupted = true ∨
        c.hasWarmLoops = true ∧ c.iteration.threads ≤ (m.signalsOf c.iteration).warmupReady) :
    c.Reliable (m.signal c.iteration f) := by
  have hs := Memory.signalsOf_signal_self m c.iteration f
  constructor
  · intro hm hw
    rw [hs] at hw ⊢
    rw [hn.1]
    exact ((warmup hm hw).elim (h.warmup hm) id).imp hl.halted id
  · intro hm hw
    rw [hs] at hw ⊢
    rw [hn.2]
    exact ((warmdown hm hw).elim (h.warmdown hm) id).imp hl.halted id
  · intro hp
    rw [hs] at hp
    exact hl.halted ((spoiled hp).elim h.spoiled id)
  · intro hi
    unfold Memory.isInterrupted at hi
    rw [hs] at hi ⊢
    rw [hn.1]
    exact (interrupted hi).elim h.interrupted id

theorem Step.reliable (h : c.Step m p m' s) (hr : c.Reliable m) (hk : c.Knows m (.point p)) :
    c.Reliable m' := by
  have hl := h.later
  cases h with
  | openWindow =>
    exact hr.signalled hl ⟨rfl, rfl⟩ (fun _ _ => .inr (.inr hk.2.2)) (fun _ => .inl) .inl .inl
  | interrupt =>
    exact hr.signalled hl ⟨rfl, rfl⟩ (fun _ => .inl) (fun _ => .inl) .inl fun _ =>
      .inr ⟨hk.1, hk.2.2⟩
  | spoilWarmup =>
    exact hr.signalled hl ⟨rfl, rfl⟩ (fun _ _ => .inr (.inl hk)) (fun _ => .inl) .inl .inl
  | spoil =>
    exact hr.signalled hl ⟨rfl, rfl⟩ (fun _ => .inl) (fun _ => .inl) (fun _ => .inr hk) .inl
  | spoilWarmdown =>
    exact hr.signalled hl ⟨rfl, rfl⟩ (fun _ => .inl) (fun _ _ => .inr (.inl hk)) .inl .inl
  | freeWarmdown =>
    exact hr.signalled hl ⟨rfl, rfl⟩ (fun _ => .inl) (fun hm _ => .inr (.inr (hk hm))) .inl .inl
  | freeWarmup =>
    have hw : ¬ c.hasWarmLoops = true := Bool.eq_false_iff.mp hk
    exact hr.signalled hl ⟨rfl, rfl⟩ (fun hm => absurd hm hw) (fun _ => .inl) .inl .inl
  | close | spoilWindow | freeWindow =>
    exact hr.signalled hl ⟨rfl, rfl⟩ (fun _ => .inl) (fun _ => .inl) .inl .inl
  | _ => exact hr

theorem Step.knows (h : c.Step m p m' s) (hk : c.Knows m (.point p)) : c.Knows m' s := by
  have signalled {f : Signals → Signals} {P : Signals →
      Prop} (hf : P (f (m.signalsOf c.iteration))) :
      P ((m.signal c.iteration f).signalsOf c.iteration) := by
    rw [Memory.signalsOf_signal_self]
    exact hf
  have hl := h.later
  cases h with
  | gather => exact hk
  | gathered hn => exact ⟨hk.1, hk.2, hn⟩
  | notGathered hh | notDrained hh => exact hh
  | openWindow | close =>
    exact ⟨hk.1, signalled (P := fun s => s.warmdownHeld = true) hk.2.1,
      signalled (P := fun s => c.iteration.threads ≤ s.warmupReady) hk.2.2⟩
  | foundFailed hf => exact .inl hf
  | inTime hn => exact fun _ => hn
  | interrupt =>
    exact .inr (signalled (P := fun s => s.interrupted = true) rfl)
  | spoilWarmup | spoilWindow | spoil => exact hl.halted hk
  | spoilWarmdown | freeWarmdown => trivial
  | freeWarmup => exact hk
  | freeWindow =>
    have hw : ¬ c.hasWarmLoops = true := Bool.eq_false_iff.mp hk
    exact fun hm => absurd hm hw
  | _ => exact hk

/-- Nothing is known for certain at the start of an iteration but what its fresh signals say. -/
theorem Reliable.opening (h₁ : (m.signalsOf c.iteration).warmupHeld = true)
    (h₂ : (m.signalsOf c.iteration).warmdownHeld = true)
    (h₃ : (m.signalsOf c.iteration).spoiled = false)
    (h₄ : (m.signalsOf c.iteration).interrupted = false) : c.Reliable m where
  warmup _ hw := absurd hw (by simp [h₁])
  warmdown _ hw := absurd hw (by simp [h₂])
  spoiled hs := absurd hs (by simp [h₃])
  interrupted hi := absurd hi (by simp [Memory.isInterrupted, h₄])

theorem Knows.opening (h : (m.signalsOf c.iteration).warmdownHeld = true) :
    c.Knows m (.point c.start) := by
  unfold start
  split
  · rename_i hm
    exact ⟨hm, h⟩
  · rename_i hm
    exact Bool.eq_false_iff.mpr hm

end

end Conductor
end LoadBench
