import LoadBench.Proofs.Parts

/-!
# What a pass can do

The relation `Step` for the measured loop and for a whole pass, built on the relations of their
parts. A part of a pass either stays inside itself or ends, and then the pass goes on, fails or
unwinds as `Pass.onward` says.
-/

namespace LoadBench

namespace Measurement

inductive Step (s : Measurement) (m : Memory) : Point → Memory → Stand Point Tally → Prop where
  | start {l : Loop} : Step s m .start m (.point (.beginBatch l))
  | beginBatch {l l' : Loop} {n : Nat} : Step s m (.beginBatch l) m (.point (.checkSpoiled l' n))
  | spoiled {l : Loop} {n : Nat} (hs : (m.signalsOf s.iteration).spoiled = true) :
      Step s m (.checkSpoiled l n) m (.point (.stop l true))
  | unspoiled {l : Loop} {n : Nat} (hs : (m.signalsOf s.iteration).spoiled = false) :
      Step s m (.checkSpoiled l n) m (.point (.work l n))
  | called {l : Loop} {n k : Nat} : Step s m (.work l n) m (.point (.checkSpoiled l k))
  | calledLast {l : Loop} {n : Nat} : Step s m (.work l n) m (.point (.endBatch l))
  | crash {l : Loop} {n : Nat} {text : String} : Step s m (.work l n) m (.ended (.crashed text))
  | endBatch {l l' : Loop} : Step s m (.endBatch l) m (.point (.checkDone l'))
  | endShot {l l' : Loop} : Step s m (.endBatch l) m (.point (.stop l' false))
  | again {l : Loop} : Step s m (.checkDone l) m (.point (.beginBatch l))
  | windowClosed {l : Loop} : Step s m (.checkDone l) m (.point (.stop l false))
  | stop {l : Loop} {b : Bool} {r : Tally} (hr : r.spoiled = b) :
      Step s m (.stop l b) m (.ended (.ok r))
  | stopSampling {l : Loop} {b : Bool} {r : Tally} (hr : r.spoiled = b) :
      Step s m (.stop l b) m (.point (.widenMask l r))
  | widenMask {l : Loop} {r : Tally} :
      Step s m (.widenMask l r) (m.signal s.iteration fun x => x.widenMask l.sampler.mask)
        (.ended (.ok r))

theorem step_of_yields {s : Measurement} {now : Nat} {m m' : Memory} {p : Point}
    {t : Stand Point Tally} (h : (s.step now m p).Yields m m' t) : Step s m p m' t := by
  cases p with
  | start =>
    obtain ⟨rfl, rfl⟩ := h
    exact .start
  | beginBatch l =>
    obtain ⟨rfl, rfl⟩ := h
    exact .beginBatch
  | checkSpoiled l n =>
    simp only [step] at h
    split at h
    · rename_i hs
      obtain ⟨rfl, rfl⟩ := h
      exact .spoiled hs
    · rename_i hs
      obtain ⟨rfl, rfl⟩ := h
      exact .unspoiled (by simpa using hs)
  | work l n =>
    obtain ⟨rfl, r, hr, rfl⟩ := h
    cases r with
    | crashed text => exact .crash
    | refused problem => exact hr.elim
    | returned value =>
      by_cases hn : n ≤ 1
      · simpa [hn] using Step.calledLast
      · simpa [hn] using Step.called
  | endBatch l =>
    obtain ⟨rfl, rfl⟩ := h
    split
    · exact .endShot
    · exact .endBatch
  | checkDone l =>
    obtain ⟨rfl, rfl⟩ := h
    split
    · exact .windowClosed
    · exact .again
  | stop l b =>
    simp only [step] at h
    split at h
    · obtain ⟨rfl, rfl⟩ := h
      exact .stopSampling rfl
    · obtain ⟨rfl, rfl⟩ := h
      exact .stop rfl
  | widenMask l r =>
    obtain ⟨rfl, rfl⟩ := h
    exact .widenMask

end Measurement

namespace Pass

inductive Step (a : Pass) (m : Memory) : Point → Memory → Stand Point Report → Prop where
  | enrol (hs : a.seat.subgroup = 0) : Step a m .begin m (.point (.acquire .look))
  | misplaced (hs : a.seat.subgroup ≠ 0) : Step a m .begin m (.point .reject)
  | reject : Step a m .reject (m.setFailed a.iteration)
      (.point (.fail .init (.subgroupWithoutRole a.seat.subgroup)))
  | acquire {p q : Acquire.Point} {m' : Memory} (h : a.acquisition.Step m p m' (.point q)) :
      Step a m (.acquire p) m' (.point (.acquire q))
  | acquired {p : Acquire.Point} {m' : Memory} {r : Outcome Nat}
      (h : a.acquisition.Step m p m' (.ended r)) :
      Step a m (.acquire p) m' (onward .init (fun f => .arrive f .announce) r)
  | arrive {f : Nat} {p q : Arrival.Point} {m' : Memory}
      (h : (a.arrival .setUp).Step m p m' (.point q)) :
      Step a m (.arrive f p) m' (.point (.arrive f q))
  | arrived {f : Nat} {p : Arrival.Point} {m' : Memory} {r : Outcome Unit}
      (h : (a.arrival .setUp).Step m p m' (.ended r)) :
      Step a m (.arrive f p) m' (onward .init (fun _ => .setUp f .enter) r)
  | setUp {f : Nat} {p q : Turn.Point} {m' : Memory}
      (h : (a.turn f ⟨.iteration, .setUp⟩).Step m p m' (.point q)) :
      Step a m (.setUp f p) m' (.point (.setUp f q))
  | setUpDone {f : Nat} {p : Turn.Point} {m' : Memory} {r : Outcome Unit}
      (h : (a.turn f ⟨.iteration, .setUp⟩).Step m p m' (.ended r)) :
      Step a m (.setUp f p) m' (onward .init (fun _ => a.afterSetUp f) r)
  | enterWarmup {f : Nat} : Step a m (.enterWarmup f) (m.signal a.iteration Signals.enterWarmup)
      (.point (.warmupGate f 0))
  | stayWarmup {f ops : Nat} (hg : (m.signalsOf a.iteration).warmupHeld = true) :
      Step a m (.warmupGate f ops) m (.point (.warmupWork f ops))
  | leaveWarmup {f ops : Nat} (hg : (m.signalsOf a.iteration).warmupHeld = false) :
      Step a m (.warmupGate f ops) m (.point (.noteStart f ops))
  | warmupWorked {f ops n : Nat} : Step a m (.warmupWork f ops) m (.point (.warmupGate f n))
  | warmupCrashed {f ops : Nat} {text : String} :
      Step a m (.warmupWork f ops) m (.point (.condemn .warmup text))
  | noteStart {f ops : Nat} : Step a m (.noteStart f ops) (m.signal a.iteration Signals.noteStart)
      (.point (.measure f ops .start))
  | measure {f ops : Nat} {p q : Measurement.Point} {m' : Memory}
      (h : a.measurement.Step m p m' (.point q)) :
      Step a m (.measure f ops p) m' (.point (.measure f ops q))
  | measured {f ops : Nat} {p : Measurement.Point} {m' : Memory} {r : Outcome Tally}
      (h : a.measurement.Step m p m' (.ended r)) :
      Step a m (.measure f ops p) m' (onward .measuring (.noteStop f ops) r)
  | noteStop {f ops : Nat} {r : Tally} : Step a m (.noteStop f ops r)
      (m.signal a.iteration Signals.noteStop) (.point (a.afterMeasured f ops r))
  | enterWarmdown {f ops : Nat} {r : Tally} : Step a m (.enterWarmdown f ops r)
      (m.signal a.iteration Signals.enterWarmdown) (.point (.warmdownGate f ops r))
  | stayWarmdown {f ops : Nat} {r : Tally} (hg : (m.signalsOf a.iteration).warmdownHeld = true) :
      Step a m (.warmdownGate f ops r) m (.point (.warmdownWork f ops r))
  | leaveWarmdown {f ops : Nat} {r : Tally} (hg : (m.signalsOf a.iteration).warmdownHeld = false) :
      Step a m (.warmdownGate f ops r) m (.point (.depart f (r.addOps ops) .announce))
  | warmdownWorked {f ops n : Nat} {r : Tally} :
      Step a m (.warmdownWork f ops r) m (.point (.warmdownGate f n r))
  | warmdownCrashed {f ops : Nat} {r : Tally} {text : String} :
      Step a m (.warmdownWork f ops r) m (.point (.condemn .warmdown text))
  | depart {f : Nat} {r : Tally} {p q : Arrival.Point} {m' : Memory}
      (h : (a.arrival .tearDown).Step m p m' (.point q)) :
      Step a m (.depart f r p) m' (.point (.depart f r q))
  | met {f : Nat} {r : Tally} {p : Arrival.Point} {m' : Memory}
      (h : (a.arrival .tearDown).Step m p m' (.ended (.ok ()))) :
      Step a m (.depart f r p) m' (.point (.tearDown f r .enter))
  | notMet {f : Nat} {r : Tally} {p : Arrival.Point} {m' : Memory} {e : Failure}
      (h : (a.arrival .tearDown).Step m p m' (.ended (.failed e))) :
      Step a m (.depart f r p) m' (.point (.checkInterrupted f r))
  | interrupted {f : Nat} {r : Tally} (hi : m.isInterrupted a.iteration = true) :
      Step a m (.checkInterrupted f r) m (.point (.checkFailed f r))
  | notInterrupted {f : Nat} {r : Tally} (hi : m.isInterrupted a.iteration = false) :
      Step a m (.checkInterrupted f r) m (.point (.fail .warmdown .aborted))
  | abort {f : Nat} {r : Tally} (hf : m.hasFailed a.iteration = true) :
      Step a m (.checkFailed f r) m (.point (.fail .warmdown .aborted))
  | proceed {f : Nat} {r : Tally} (hf : m.hasFailed a.iteration = false) :
      Step a m (.checkFailed f r) m (.point (.force f r))
  | force {f : Nat} {r : Tally} :
      Step a m (.force f r) (m.signal a.iteration Signals.force) (.point (.tearDown f r .enter))
  | tearDown {f : Nat} {r : Tally} {p q : Turn.Point} {m' : Memory}
      (h : (a.turn f ⟨.iteration, .tearDown⟩).Step m p m' (.point q)) :
      Step a m (.tearDown f r p) m' (.point (.tearDown f r q))
  | tearDownDone {f : Nat} {r : Tally} {p : Turn.Point} {m' : Memory} {o : Outcome Unit}
      (h : (a.turn f ⟨.iteration, .tearDown⟩).Step m p m' (.ended o)) :
      Step a m (.tearDown f r p) m' (onward .warmdown (fun _ => a.afterTearDown r) o)
  | enterRelease {r : Tally} : Step a m (.enterRelease r) m (.point (.release r .look))
  | release {r : Tally} {p q : Release.Point} {m' : Memory}
      (h : a.giveBack.Step m p m' (.point q)) : Step a m (.release r p) m' (.point (.release r q))
  | released {r : Tally} {p : Release.Point} {m' : Memory} {o : Outcome Unit}
      (h : a.giveBack.Step m p m' (.ended o)) :
      Step a m (.release r p) m' (onward .trialTeardown (fun _ => .finish .trialTeardown r) o)
  | void {source : Phase} {r : Tally} (hr : r.spoiled = true ∨ m.isInterrupted a.iteration = true) :
      Step a m (.finish source r) m (.point (.fail .done .interrupted))
  | finish {source : Phase} {r : Tally} (hr : r.spoiled = false)
      (hi : m.isInterrupted a.iteration = false) :
      Step a m (.finish source r) m (.ended (.ok (r.report a.mode a.iteration)))
  | fail {phase : Phase} {e : Failure} : Step a m (.fail phase e) m (.ended (.failed e))
  | condemn {phase : Phase} {text : String} :
      Step a m (.condemn phase text) (m.setFailed a.iteration) (.ended (.crashed text))

section
variable {a : Pass} {now : Nat} {m m' : Memory} {t : Stand Point Report}

/-- A call of the workload in a warm loop returns or crashes. -/
theorem warmWork_yields {phase : Phase} {next : Point} (h : (warmWork phase next).Yields m m' t) :
    m' = m ∧ (t = .point next ∨ ∃ text, t = .point (.condemn phase text)) := by
  obtain ⟨rfl, r, hr, rfl⟩ := h
  cases r with
  | crashed text => exact ⟨rfl, .inr ⟨text, rfl⟩⟩
  | refused problem => exact hr.elim
  | returned value => exact ⟨rfl, .inl rfl⟩

theorem step_of_yields {p : Point} (h : (a.step now m p).Yields m m' t) : Step a m p m' t := by
  cases p with
  | begin =>
    obtain ⟨rfl, rfl⟩ := h
    by_cases hs : a.seat.subgroup = 0
    · simpa [hs] using Step.enrol hs
    · simpa [hs] using Step.misplaced hs
  | reject =>
    obtain ⟨rfl, rfl⟩ := h
    exact .reject
  | acquire p =>
    obtain ⟨u, hu, rfl⟩ := Move.yields_andThen.mp h
    have hu := Acquire.step_of_yields hu
    cases u with
    | point q => exact .acquire hu
    | ended r => exact .acquired hu
  | arrive f p =>
    obtain ⟨u, hu, rfl⟩ := Move.yields_andThen.mp h
    have hu := Arrival.step_of_yields hu
    cases u with
    | point q => exact .arrive hu
    | ended r => exact .arrived hu
  | setUp f p =>
    obtain ⟨u, hu, rfl⟩ := Move.yields_andThen.mp h
    have hu := Turn.step_of_yields hu
    cases u with
    | point q => exact .setUp hu
    | ended r => exact .setUpDone hu
  | enterWarmup f =>
    obtain ⟨rfl, rfl⟩ := h
    exact .enterWarmup
  | warmupGate f ops =>
    obtain ⟨rfl, rfl⟩ := h
    split
    · rename_i hg
      exact .stayWarmup hg
    · rename_i hg
      exact .leaveWarmup (by simpa using hg)
  | warmupWork f ops =>
    obtain ⟨rfl, rfl | ⟨text, rfl⟩⟩ := warmWork_yields h
    · exact .warmupWorked
    · exact .warmupCrashed
  | noteStart f ops =>
    obtain ⟨rfl, rfl⟩ := h
    exact .noteStart
  | measure f ops p =>
    obtain ⟨u, hu, rfl⟩ := Move.yields_andThen.mp h
    have hu := Measurement.step_of_yields hu
    cases u with
    | point q => exact .measure hu
    | ended r => exact .measured hu
  | noteStop f ops r =>
    obtain ⟨rfl, rfl⟩ := h
    exact .noteStop
  | enterWarmdown f ops r =>
    obtain ⟨rfl, rfl⟩ := h
    exact .enterWarmdown
  | warmdownGate f ops r =>
    obtain ⟨rfl, rfl⟩ := h
    split
    · rename_i hg
      exact .stayWarmdown hg
    · rename_i hg
      exact .leaveWarmdown (by simpa using hg)
  | warmdownWork f ops r =>
    obtain ⟨rfl, rfl | ⟨text, rfl⟩⟩ := warmWork_yields h
    · exact .warmdownWorked
    · exact .warmdownCrashed
  | depart f r p =>
    obtain ⟨u, hu, rfl⟩ := Move.yields_andThen.mp h
    have hu := Arrival.step_of_yields hu
    cases u with
    | point q => exact .depart hu
    | ended o =>
      cases o with
      | ok v => exact .met hu
      | failed e => exact .notMet hu
      | crashed text => cases hu
  | checkInterrupted f r =>
    obtain ⟨rfl, rfl⟩ := h
    split
    · rename_i hi
      exact .interrupted hi
    · rename_i hi
      exact .notInterrupted (by simpa using hi)
  | checkFailed f r =>
    simp only [step] at h
    split at h
    · rename_i hf
      obtain ⟨rfl, rfl⟩ := h
      exact .abort hf
    · rename_i hf
      obtain ⟨rfl, rfl⟩ := h
      exact .proceed (by simpa using hf)
  | force f r =>
    obtain ⟨rfl, rfl⟩ := h
    exact .force
  | tearDown f r p =>
    obtain ⟨u, hu, rfl⟩ := Move.yields_andThen.mp h
    have hu := Turn.step_of_yields hu
    cases u with
    | point q => exact .tearDown hu
    | ended o => exact .tearDownDone hu
  | enterRelease r =>
    obtain ⟨rfl, rfl⟩ := h
    exact .enterRelease
  | release r p =>
    obtain ⟨u, hu, rfl⟩ := Move.yields_andThen.mp h
    have hu := Release.step_of_yields hu
    cases u with
    | point q => exact .release hu
    | ended o => exact .released hu
  | finish source r =>
    simp only [step] at h
    split at h
    · rename_i hr
      obtain ⟨rfl, rfl⟩ := h
      exact .void (by simpa using hr)
    · rename_i hr
      obtain ⟨rfl, rfl⟩ := h
      simp only [Bool.or_eq_true, not_or, Bool.not_eq_true] at hr
      exact .finish hr.1 hr.2
  | fail phase e =>
    obtain ⟨rfl, rfl⟩ := h
    exact .fail
  | condemn phase text =>
    obtain ⟨rfl, rfl⟩ := h
    exact .condemn

end
end Pass
end LoadBench
