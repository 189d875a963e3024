import LoadBench.Proofs.Transition

/-!
# What the parts of a pass can do

For every operation that a pass is made of, an inductive relation `Step` with one constructor for
each thing that a single step can do: what was found in the shared memory, what is changed there,
and where it leads. `step_of_yields` says that there is nothing else. Clock readings, backoff
delays and wordings are left out.
-/

namespace LoadBench

namespace Memory

/-- The trial is failing or the iteration was interrupted: what ends every wait. -/
def Halted (m : Memory) (c : Iteration) : Prop := m.hasFailed c = true ∨ m.isInterrupted c = true

end Memory

namespace Wait

/-- A wait changes nothing; it ends when its condition no longer holds, or is ended by a halt. -/
theorem yields_cases {w : Wait} {now : Nat} {m m' : Memory} {p : Point} {s : Stand Point Unit}
    (h : (w.step now m p).Yields m m' s) :
    m' = m ∧ ((∃ q, s = .point q) ∨ (s = .ended (.ok ()) ∧ ∃ n, w.holds m now n = false) ∨
      (s = .ended (.failed .aborted) ∧ m.Halted w.iteration)) := by
  cases p with
  | poll n d =>
    simp only [step] at h
    split at h
    · obtain ⟨rfl, rfl⟩ := h
      exact ⟨rfl, .inl ⟨_, rfl⟩⟩
    · rename_i hh
      obtain ⟨rfl, rfl⟩ := h
      exact ⟨rfl, .inr (.inl ⟨rfl, n, by simpa using hh⟩)⟩
  | doze n d =>
    obtain ⟨rfl, _, _, rfl⟩ := h
    exact ⟨rfl, .inl ⟨_, rfl⟩⟩
  | checkFailed n d =>
    simp only [step] at h
    split at h
    · rename_i hf
      obtain ⟨rfl, rfl⟩ := h
      exact ⟨rfl, .inr (.inr ⟨rfl, .inl hf⟩)⟩
    · obtain ⟨rfl, rfl⟩ := h
      exact ⟨rfl, .inl ⟨_, rfl⟩⟩
  | checkInterrupted n d =>
    simp only [step] at h
    split at h
    · rename_i hi
      obtain ⟨rfl, rfl⟩ := h
      exact ⟨rfl, .inr (.inr ⟨rfl, .inr hi⟩)⟩
    · obtain ⟨rfl, rfl⟩ := h
      exact ⟨rfl, .inl ⟨_, rfl⟩⟩

end Wait

namespace Arrival

inductive Step (a : Arrival) (m : Memory) : Point → Memory → Stand Point Unit → Prop where
  | announce {p : Wait.Point} :
      Step a m .announce (m.signal a.iteration a.rendezvous.arrive) (.point (.waiting p))
  | wait {p q : Wait.Point} : Step a m (.waiting p) m (.point (.waiting q))
  | met {p : Wait.Point}
      (hn : a.iteration.threads ≤ a.rendezvous.arrivals (m.signalsOf a.iteration)) :
      Step a m (.waiting p) m (.ended (.ok ()))
  | abort {p : Wait.Point} (hh : m.Halted a.iteration) :
      Step a m (.waiting p) m (.ended (.failed .aborted))

theorem step_of_yields {a : Arrival} {now : Nat} {m m' : Memory} {p : Point} {s : Stand Point Unit}
    (h : (a.step now m p).Yields m m' s) : Step a m p m' s := by
  cases p with
  | announce =>
    obtain ⟨rfl, rfl⟩ := h
    exact .announce
  | waiting p =>
    obtain ⟨t, ht, rfl⟩ := Move.yields_andThen.mp h
    obtain ⟨rfl, ⟨q, rfl⟩ | ⟨rfl, n, hn⟩ | ⟨rfl, hh⟩⟩ := Wait.yields_cases ht
    · exact .wait
    · exact .met (by simpa [wait] using hn)
    · exact .abort hh

end Arrival

namespace Turn

theorem isOk_verdict (t : Turn) (x : Mishap) : (t.verdict x).isOk = false := by
  cases x <;> rfl

inductive Step (t : Turn) (m : Memory) : Point → Memory → Stand Point Unit → Prop where
  | enter (hg : m.gate t.fixture t.stage = .idle) :
      Step t m .enter (m.setGate t.fixture t.stage .active) (.point .checkFailed)
  | queue {p : Wait.Point} (hg : m.gate t.fixture t.stage = .active) :
      Step t m .enter m (.point (.queued (.waiting p)))
  | wait {p q : Wait.Point} : Step t m (.queued (.waiting p)) m (.point (.queued (.waiting q)))
  | foundIdle {p : Wait.Point} (hg : m.gate t.fixture t.stage = .idle) :
      Step t m (.queued (.waiting p)) m (.point (.queued .checkFailed))
  | giveUp {p : Wait.Point} (hh : m.Halted t.iteration) :
      Step t m (.queued (.waiting p)) m (.ended (.failed .aborted))
  | join (hf : m.hasFailed t.iteration = false) :
      Step t m (.queued .checkFailed) m (.ended (.ok ()))
  | foundFailed (hf : m.hasFailed t.iteration = true) :
      Step t m (.queued .checkFailed) m (.ended (.failed .aborted))
  | abort (hf : m.hasFailed t.iteration = true) :
      Step t m .checkFailed m (.point (.leave (.failed .aborted)))
  | proceed (hf : m.hasFailed t.iteration = false) : Step t m .checkFailed m (.point .checkReady)
  | settled (hs : m.isReady t.fixture t.stage = t.stage.isSetUp) :
      Step t m .checkReady m (.point (.leave (.ok ())))
  | due (hs : m.isReady t.fixture t.stage ≠ t.stage.isSetUp) : Step t m .checkReady m (.point .hook)
  | returned : Step t m .hook m (.point .commit)
  | mishap {x : Mishap} : Step t m .hook m (.point (.condemn x))
  | condemn {x : Mishap} :
      Step t m (.condemn x) (m.setFailed t.iteration) (.point (.leave (t.verdict x)))
  | commit :
      Step t m .commit (m.setReady t.fixture t.stage t.stage.isSetUp) (.point (.leave (.ok ())))
  | leave {r : Outcome Unit} : Step t m (.leave r) (m.setGate t.fixture t.stage .idle) (.ended r)

theorem step_of_yields {t : Turn} {now : Nat} {m m' : Memory} {p : Point} {s : Stand Point Unit}
    (h : (t.step now m p).Yields m m' s) : Step t m p m' s := by
  cases p with
  | enter =>
    cases hg : m.gate t.fixture t.stage with
    | idle =>
      simp only [step, hg, Gate.enter?] at h
      obtain ⟨rfl, rfl⟩ := h
      exact .enter hg
    | active =>
      simp only [step, hg, Gate.enter?] at h
      obtain ⟨rfl, rfl⟩ := h
      exact .queue hg
  | queued p =>
    obtain ⟨u, hu, rfl⟩ := Move.yields_andThen.mp h
    cases p with
    | waiting p =>
      obtain ⟨v, hv, rfl⟩ := Move.yields_andThen.mp hu
      obtain ⟨rfl, ⟨q, rfl⟩ | ⟨rfl, n, hn⟩ | ⟨rfl, hh⟩⟩ := Wait.yields_cases hv
      · exact .wait
      · apply Step.foundIdle
        have hn : (m'.gate t.fixture t.stage).isActive = false := hn
        cases hg : m'.gate t.fixture t.stage with
        | idle => rfl
        | active => simp [hg] at hn
      · exact .giveUp hh
    | checkFailed =>
      obtain ⟨rfl, rfl⟩ := hu
      cases hf : m'.hasFailed t.iteration with
      | false => simpa [idling, hf] using Step.join hf
      | true => simpa [idling, hf] using Step.foundFailed hf
  | checkFailed =>
    simp only [step] at h
    split at h
    · rename_i hf
      obtain ⟨rfl, rfl⟩ := h
      exact .abort hf
    · rename_i hf
      obtain ⟨rfl, rfl⟩ := h
      exact .proceed (by simpa using hf)
  | checkReady =>
    simp only [step] at h
    split at h
    · rename_i hs
      obtain ⟨rfl, rfl⟩ := h
      exact .settled hs
    · rename_i hs
      obtain ⟨rfl, rfl⟩ := h
      exact .due hs
  | hook =>
    obtain ⟨rfl, r, _, rfl⟩ := h
    cases r with
    | returned => exact .returned
    | refused => exact .mishap
    | crashed => exact .mishap
  | condemn x =>
    obtain ⟨rfl, rfl⟩ := h
    exact .condemn
  | commit =>
    obtain ⟨rfl, rfl⟩ := h
    exact .commit
  | leave r =>
    obtain ⟨rfl, rfl⟩ := h
    exact .leave

end Turn

namespace Acquire

theorem isOk_verdict (a : Acquire) (x : Mishap) : (a.verdict x).isOk = false := by
  cases x <;> rfl

inductive Step (a : Acquire) (m : Memory) : Point → Memory → Stand Point Nat → Prop where
  | found {f : Nat} (hl : m.live? a.site = some f) : Step a m .look m (.ended (.ok f))
  | vacant (hl : m.live? a.site = none) : Step a m .look m (.point .enter)
  | enter (he : m.isEntered a.site = false) :
      Step a m .enter (m.setEntered a.site true) (.point .recheck)
  | foundLate {f : Nat} (hl : m.live? a.site = some f) :
      Step a m .recheck m (.point (.leave (.ok f)))
  | stillVacant (hl : m.live? a.site = none) : Step a m .recheck m (.point .checkFailed)
  | abort (hf : m.hasFailed a.iteration = true) :
      Step a m .checkFailed m (.point (.leave (.failed .aborted)))
  | proceed (hf : m.hasFailed a.iteration = false) : Step a m .checkFailed m (.point .construct)
  | constructed {value : Nat} : Step a m .construct m (.point (.setUp value))
  | mishap {x : Mishap} : Step a m .construct m (.point (.condemn x))
  | setUp {value : Nat} : Step a m (.setUp value) m (.point (.publish value))
  | setUpMishap {value : Nat} {x : Mishap} : Step a m (.setUp value) m (.point (.condemn x))
  | publish {value : Nat} :
      Step a m (.publish value) (m.publish a.site value) (.point (.leave (.ok m.published)))
  | condemn {x : Mishap} :
      Step a m (.condemn x) (m.setFailed a.iteration) (.point (.leave (a.verdict x)))
  | leave {r : Outcome Nat} : Step a m (.leave r) (m.setEntered a.site false) (.ended r)

theorem step_of_yields {a : Acquire} {m m' : Memory} {p : Point} {s : Stand Point Nat}
    (h : (a.step m p).Yields m m' s) : Step a m p m' s := by
  cases p with
  | look =>
    cases hl : m.live? a.site with
    | some f =>
      simp only [step, hl] at h
      obtain ⟨rfl, rfl⟩ := h
      exact .found hl
    | none =>
      simp only [step, hl] at h
      obtain ⟨rfl, rfl⟩ := h
      exact .vacant hl
  | enter =>
    simp only [step] at h
    split at h
    · exact h.elim
    · rename_i he
      obtain ⟨rfl, rfl⟩ := h
      exact .enter (by simpa using he)
  | recheck =>
    cases hl : m.live? a.site with
    | some f =>
      simp only [step, hl] at h
      obtain ⟨rfl, rfl⟩ := h
      exact .foundLate hl
    | none =>
      simp only [step, hl] at h
      obtain ⟨rfl, rfl⟩ := h
      exact .stillVacant hl
  | checkFailed =>
    simp only [step] at h
    split at h
    · rename_i hf
      obtain ⟨rfl, rfl⟩ := h
      exact .abort hf
    · rename_i hf
      obtain ⟨rfl, rfl⟩ := h
      exact .proceed (by simpa using hf)
  | construct =>
    obtain ⟨rfl, r, _, rfl⟩ := h
    cases r with
    | returned => exact .constructed
    | refused => exact .mishap
    | crashed => exact .mishap
  | setUp value =>
    obtain ⟨rfl, r, _, rfl⟩ := h
    cases r with
    | returned => exact .setUp
    | refused => exact .setUpMishap
    | crashed => exact .setUpMishap
  | publish value =>
    obtain ⟨rfl, rfl⟩ := h
    exact .publish
  | condemn x =>
    obtain ⟨rfl, rfl⟩ := h
    exact .condemn
  | leave r =>
    obtain ⟨rfl, rfl⟩ := h
    exact .leave

end Acquire

namespace Clear

inductive Step (c : Clear) (m : Memory) : Point → Memory → Stand Point Unit → Prop where
  | enter (he : m.isEntered c.site = false) :
      Step c m .enter (m.setEntered c.site true) (.point .store)
  | store : Step c m .store (m.clear c.site) (.point .leave)
  | leave : Step c m .leave (m.setEntered c.site false) (.ended (.ok ()))

theorem step_of_yields {c : Clear} {m m' : Memory} {p : Point} {s : Stand Point Unit}
    (h : (c.step m p).Yields m m' s) : Step c m p m' s := by
  cases p with
  | enter =>
    simp only [step] at h
    split at h
    · exact h.elim
    · rename_i he
      obtain ⟨rfl, rfl⟩ := h
      exact .enter (by simpa using he)
  | store =>
    obtain ⟨rfl, rfl⟩ := h
    exact .store
  | leave =>
    obtain ⟨rfl, rfl⟩ := h
    exact .leave

end Clear

namespace Release

inductive Step (a : Release) (m : Memory) : Point → Memory → Stand Point Unit → Prop where
  | found {f : Nat} (hl : m.live? a.site = some f) : Step a m .look m (.point (.cleaning f .enter))
  | vacant (hl : m.live? a.site = none) : Step a m .look m (.point .checkFailed)
  | cleaning {f : Nat} {p q : Turn.Point} {m' : Memory} (ht : (a.turn f).Step m p m' (.point q)) :
      Step a m (.cleaning f p) m' (.point (.cleaning f q))
  | cleaned {f : Nat} {p : Turn.Point} {m' : Memory} {r : Outcome Unit}
      (ht : (a.turn f).Step m p m' (.ended r)) (hr : r.isCrash = false) :
      Step a m (.cleaning f p) m' (.point (.clearing r .enter))
  | crashed {f : Nat} {p : Turn.Point} {m' : Memory} {text : String}
      (ht : (a.turn f).Step m p m' (.ended (.crashed text))) :
      Step a m (.cleaning f p) m' (.ended (.crashed text))
  | abort (hf : m.hasFailed a.iteration = true) :
      Step a m .checkFailed m (.point (.clearing (.failed .aborted) .enter))
  | proceed (hf : m.hasFailed a.iteration = false) :
      Step a m .checkFailed m (.point (.clearing (.ok ()) .enter))
  | clearing {r : Outcome Unit} {p q : Clear.Point} {m' : Memory}
      (hc : a.clear.Step m p m' (.point q)) : Step a m (.clearing r p) m' (.point (.clearing r q))
  | cleared {r o : Outcome Unit} {p : Clear.Point} {m' : Memory}
      (hc : a.clear.Step m p m' (.ended o)) : Step a m (.clearing r p) m' (.ended r)

theorem step_of_yields {a : Release} {now : Nat} {m m' : Memory} {p : Point} {s : Stand Point Unit}
    (h : (a.step now m p).Yields m m' s) : Step a m p m' s := by
  cases p with
  | look =>
    cases hl : m.live? a.site with
    | some f =>
      simp only [step, hl] at h
      obtain ⟨rfl, rfl⟩ := h
      exact .found hl
    | none =>
      simp only [step, hl] at h
      obtain ⟨rfl, rfl⟩ := h
      exact .vacant hl
  | cleaning f p =>
    obtain ⟨u, hu, rfl⟩ := Move.yields_andThen.mp h
    have ht := Turn.step_of_yields hu
    cases u with
    | point q => exact .cleaning ht
    | ended r =>
      cases r with
      | ok v => exact .cleaned ht rfl
      | failed e => exact .cleaned ht rfl
      | crashed text => exact .crashed ht
  | checkFailed =>
    obtain ⟨rfl, rfl⟩ := h
    cases hf : m'.hasFailed a.iteration with
    | true => simpa [hf] using Step.abort hf
    | false => simpa [hf] using Step.proceed hf
  | clearing r p =>
    obtain ⟨u, hu, rfl⟩ := Move.yields_andThen.mp h
    have hc := Clear.step_of_yields hu
    cases u with
    | point q => exact .clearing hc
    | ended o => exact .cleared hc

end Release
end LoadBench
