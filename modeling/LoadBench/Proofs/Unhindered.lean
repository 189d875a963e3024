import LoadBench.Proofs.Health
import LoadBench.Proofs.Verdict

/-!
# Trials that nothing goes wrong in

Whoever is alone in an iteration waits for nobody. If besides every call returns, each part of a
pass leads from its start to its end (`Glides`), and finds and leaves the shared state in good order
(`Memory.Calm`). So a trial of single shots on one thread can always end well, however many
iterations it has (`Execution.exists_run_ok`).
-/

namespace LoadBench

/-- The way of an operation when nobody else acts and every call returns. -/
inductive Glides {σ α : Type} (step : Memory → σ → Move Memory σ α) :
    Memory → Stand σ α → Memory → Stand σ α → Prop where
  | refl {m : Memory} {s : Stand σ α} : Glides step m s m s
  | act {m m₁ m' : Memory} {p : σ} {notes : List Note} {t s : Stand σ α}
      (h : step m p = .act m₁ notes t) (hs : Glides step m₁ t m' s) : Glides step m (.point p) m' s
  | ask {m m' : Memory} {p : σ} {q : Request} {k : Reply → Stand σ α} {s : Stand σ α}
      (h : step m p = .ask q k) (hs : Glides step m (k (.returned 0)) m' s) :
      Glides step m (.point p) m' s

namespace Glides
variable {σ τ α β : Type} {step : Memory → σ → Move Memory σ α} {m m₁ m' : Memory}
  {s t u : Stand σ α}

theorem trans (h : Glides step m s m₁ t) (h' : Glides step m₁ t m' u) : Glides step m s m' u := by
  induction h with
  | refl => exact h'
  | act h _ ih => exact .act h (ih h')
  | ask h _ ih => exact .ask h (ih h')

theorem andThen {whole : Memory → τ → Move Memory τ β} {embed : σ → τ}
    {onward : Outcome α → Stand τ β} (h : Glides step m s m' t)
    (hw : ∀ m p, whole m (embed p) = (step m p).andThen embed onward) :
    Glides whole m (s.andThen embed onward) m' (t.andThen embed onward) := by
  induction h with
  | refl => exact .refl
  | @act m m₁ _ p notes t _ h _ ih =>
    have hact : whole m (embed p) = .act m₁ notes (t.andThen embed onward) := by
      rw [hw, h, Move.andThen_act]
    exact .act hact ih
  | @ask m _ p q k _ h _ ih =>
    have hask : whole m (embed p) = .ask q fun r => (k r).andThen embed onward := by
      rw [hw, h, Move.andThen_ask]
    exact .ask hask ih

/-- The way of a part is a way of the whole. -/
theorem part {whole : Memory → τ → Move Memory τ β} {embed : σ → τ} {onward : Outcome α → Stand τ β}
    {p : σ} {r : Outcome α} {t : Stand τ β} (h : Glides step m (.point p) m' (.ended r))
    (hw : ∀ m p, whole m (embed p) = (step m p).andThen embed onward) (ht : onward r = t) :
    Glides whole m (.point (embed p)) m' t :=
  ht ▸ h.andThen hw

/-- What an operation in progress keeps by its steps it keeps on its way; a
call takes two of them. -/
theorem along {P : Memory → Strand σ α → Prop}
    (hP : ∀ {m s m' es s'}, P m s →
      s.advance (step m) m (.returned 0) = some (m', es, s') → P m' s')
    (h : Glides step m s m' t) (hs : P m ⟨s, false⟩) : P m' ⟨t, false⟩ := by
  induction h with
  | refl => exact hs
  | act h _ ih => exact ih (hP hs (by simp only [Strand.advance, h]; rfl))
  | @ask m _ p q k _ h _ ih =>
    have hq : q.Admits (.returned 0) := by cases q <;> trivial
    have hcalling : P m ⟨.point p, true⟩ := hP hs (by simp only [Strand.advance, h]; rfl)
    exact ih (hP hcalling (by simp only [Strand.advance, h, if_pos hq]; rfl))

end Glides

/-- What a turn leaves as it was, once it is over. -/
structure Memory.Restored (f : Nat) (m m' : Memory) : Prop where
  failing : m'.failing = m.failing
  signals : m'.signals = m.signals
  slots : m'.slots = m.slots
  gate : ∀ s, m'.gate f s = m.gate f s

/-- Nothing has gone wrong in an iteration, nor has it been halted, and nobody is at its fixture. -/
structure Memory.Calm (c : Iteration) (site : Site) (m : Memory) : Prop where
  unfailed : m.hasFailed c = false
  unspoiled : (m.signalsOf c).spoiled = false
  uninterrupted : (m.signalsOf c).interrupted = false
  quiet : m.Quiet site

structure Memory.Held (c : Iteration) (site : Site) (f : Nat) (m : Memory) : Prop where
  calm : m.Calm c site
  live : m.live? site = some f

section
variable {c : Iteration} {site : Site} {m m' : Memory} {f : Nat}

theorem Memory.Restored.live? (h : m.Restored f m') : m'.live? site = m.live? site := by
  simp only [Memory.live?, h.slots]

theorem Memory.Calm.of_same (hm : m.Calm c site) (hf : m'.failing = m.failing)
    (hs : m'.signals = m.signals) (hq : m'.Quiet site) : m'.Calm c site := by
  have hsignals : m'.signalsOf c = m.signalsOf c := by simp only [Memory.signalsOf, hs]
  refine ⟨?_, hsignals ▸ hm.unspoiled, hsignals ▸ hm.uninterrupted, hq⟩
  simp only [Memory.hasFailed, hf]
  exact hm.unfailed

theorem Memory.Held.restored (hm : m.Held c site f) (h : m.Restored f m') : m'.Held c site f := by
  refine ⟨hm.calm.of_same h.failing h.signals ⟨?_, fun f' hl' s => ?_⟩, h.live?.trans hm.live⟩
  · simp only [Memory.isEntered, h.slots]
    exact hm.calm.quiet.left
  · cases hm.live.symm.trans (h.live?.symm.trans hl')
    rw [h.gate]
    exact hm.calm.quiet.idle f hm.live s

theorem Memory.Calm.signal {g : Signals → Signals} (hm : m.Calm c site)
    (hg : ∀ s, (g s).spoiled = s.spoiled ∧ (g s).interrupted = s.interrupted) :
    (m.signal c g).Calm c site := by
  refine ⟨hm.unfailed, ?_, ?_, hm.quiet.left, hm.quiet.idle⟩
  · rw [Memory.signalsOf_signal_self, (hg _).1]
    exact hm.unspoiled
  · rw [Memory.signalsOf_signal_self, (hg _).2]
    exact hm.uninterrupted

theorem Memory.Held.signal {g : Signals → Signals} (hm : m.Held c site f)
    (hg : ∀ s, (g s).spoiled = s.spoiled ∧ (g s).interrupted = s.interrupted) :
    (m.signal c g).Held c site f :=
  ⟨hm.calm.signal hg, hm.live⟩

theorem Memory.Held.arrive (hm : m.Held c site f) (v : Rendezvous) :
    (m.signal c v.arrive).Held c site f :=
  hm.signal fun s => by cases v <;> exact ⟨rfl, rfl⟩

end

/-! ### The parts of a pass -/

section
variable {m : Memory} {f : Nat}

/-- A turn at a gate that nobody is in, whether its hook is due or not. -/
theorem Turn.glides {t : Turn} (hf : m.hasFailed t.iteration = false)
    (hg : m.gate t.fixture t.stage = .idle) :
    ∃ m', Glides (t.step 0) m (.point .enter) m' (.ended (.ok ())) ∧ m.Restored t.fixture m' := by
  obtain ⟨m₁, hm₁⟩ : ∃ m₁, m₁ = m.setGate t.fixture t.stage .active := ⟨_, rfl⟩
  have hsame₁ : m₁.failing = m.failing ∧ m₁.signals = m.signals ∧ m₁.slots = m.slots := by
    simp only [hm₁, Memory.setGate, and_self]
  have hgate₁ (s : Stage) (hs : s ≠ t.stage) : m₁.gate t.fixture s = m.gate t.fixture s := by
    rw [hm₁, Memory.gate_setGate, if_neg hs]
  have henter : t.step 0 m .enter = .act m₁ [] (.point .checkFailed) := by
    rw [hm₁]
    simp only [step, hg]
    rfl
  have hcheck : t.step 0 m₁ .checkFailed = .act m₁ [] (.point .checkReady) :=
    if_neg (by simpa [Memory.hasFailed, hsame₁.1] using hf)
  -- whoever has changed no other gate restores them all on leaving
  have hleave {m₂ : Memory} (hsame : m₂.failing = m.failing ∧ m₂.signals = m.signals ∧
      m₂.slots = m.slots)
      (hgate : ∀ s, s ≠ t.stage → m₂.gate t.fixture s = m.gate t.fixture s) :
      ∃ m', Glides (t.step 0) m₂ (.point (.leave (.ok ()))) m' (.ended (.ok ())) ∧
        m.Restored t.fixture m' := by
    refine ⟨_, .act rfl .refl, hsame.1, hsame.2.1, hsame.2.2, fun s => ?_⟩
    rw [Memory.gate_setGate]
    by_cases hs : s = t.stage
    · rw [if_pos hs, hs, hg]
      rfl
    · rw [if_neg hs, hgate s hs]
  by_cases hr : m₁.isReady t.fixture t.stage = t.stage.isSetUp
  · obtain ⟨m', hway, hrestored⟩ := hleave hsame₁ hgate₁
    exact ⟨m', .act henter (.act hcheck (.act (if_pos hr) hway)), hrestored⟩
  · obtain ⟨m₂, hm₂⟩ : ∃ m₂, m₂ = m₁.setReady t.fixture t.stage t.stage.isSetUp := ⟨_, rfl⟩
    have hcommit : t.step 0 m₁ .commit =
        .act m₂ [.stageCompleted t.site.name t.stage] (.point (.leave (.ok ()))) := by
      rw [hm₂]
      rfl
    have hsame₂ : m₂.failing = m.failing ∧ m₂.signals = m.signals ∧ m₂.slots = m.slots := by
      simpa only [hm₂, Memory.setReady] using hsame₁
    obtain ⟨m', hway, hrestored⟩ := hleave hsame₂ fun s hs => by
      rw [hm₂, Memory.gate_setReady, hgate₁ s hs]
    exact ⟨m', .act henter (.act hcheck (.act (if_neg hr) (.ask rfl (.act hcommit hway)))),
      hrestored⟩

/-- Where no fixture is live yet, one is constructed. -/
theorem Acquire.glides {a : Acquire} (hm : m.Calm a.iteration a.site) :
    ∃ m' f, Glides a.step m (.point .look) m' (.ended (.ok f)) ∧ m'.Held a.iteration a.site f := by
  cases hl : m.live? a.site with
  | some f =>
    have hlook : a.step m .look = .act m [] (.ended (.ok f)) := by simp only [step, hl]
    exact ⟨m, f, .act hlook .refl, hm, hl⟩
  | none =>
    obtain ⟨m₁, hm₁⟩ : ∃ m₁, m₁ = m.setEntered a.site true := ⟨_, rfl⟩
    obtain ⟨m₂, hm₂⟩ : ∃ m₂, m₂ = m₁.publish a.site 0 := ⟨_, rfl⟩
    obtain ⟨m₃, hm₃⟩ : ∃ m₃, m₃ = m₂.setEntered a.site false := ⟨_, rfl⟩
    have hl₁ : m₁.live? a.site = none := by rw [hm₁, Memory.live?_setEntered, hl]
    have hlook : a.step m .look = .act m [] (.point .enter) := by simp only [step, hl]
    have henter : a.step m .enter = .act m₁ [] (.point .recheck) := by
      rw [hm₁]
      exact if_neg (by simp [hm.quiet.left])
    have hrecheck : a.step m₁ .recheck = .act m₁ [] (.point .checkFailed) := by
      simp only [step, hl₁]
    have hcheck :
        a.step m₁ .checkFailed = .act m₁ [.constructing a.site.name] (.point .construct) :=
      if_neg (by simp [hm₁, hm.unfailed])
    have hpublish : a.step m₁ (.publish 0) =
        .act m₂ [.published a.site.name] (.point (.leave (.ok m₁.published))) := by
      rw [hm₂]
      rfl
    have hleave :
        a.step m₂ (.leave (.ok m₁.published)) = .act m₃ [] (.ended (.ok m₁.published)) := by
      rw [hm₃]
      rfl
    have hlive : m₃.live? a.site = some m₁.published := by
      rw [hm₃, Memory.live?_setEntered, hm₂, Memory.live?_publish, if_pos rfl]
    have hgate (s : Stage) : m₃.gate m₁.published s = .idle := by
      have hfixture : m₃.fixture m₁.published = .fresh 0 := by
        have hsame : m₃.fixture m₁.published = m₂.fixture m₁.published := by
          simp only [hm₃, Memory.setEntered, Memory.fixture]
        rw [hsame, hm₂, Memory.fixture_publish, if_pos rfl]
      rw [Memory.gate, hfixture]
      exact Stages.get_replicate ..
    have hsame : m₃.failing = m.failing ∧ m₃.signals = m.signals := by
      simp only [hm₃, hm₂, hm₁, Memory.setEntered, Memory.publish, and_self]
    refine ⟨m₃, m₁.published, ?_, hm.of_same hsame.1 hsame.2 ⟨?_, fun f' hf' s => ?_⟩, hlive⟩
    · have hway : Glides a.step m₁ (.point .construct) m₃ (.ended (.ok m₁.published)) :=
        .ask rfl (.ask rfl (.act hpublish (.act hleave .refl)))
      exact .act hlook (.act henter (.act hrecheck (.act hcheck hway)))
    · rw [hm₃, Memory.isEntered_setEntered, if_pos rfl]
    · cases hlive.symm.trans hf'
      exact hgate s

/-- Who is alone meets everybody by arriving. -/
theorem Arrival.glides {a : Arrival} (ht : a.iteration.threads.val = 1) :
    Glides (a.step 0) m (.point .announce) (m.signal a.iteration a.rendezvous.arrive)
      (.ended (.ok ())) := by
  have hall : a.iteration.threads.val ≤
      a.rendezvous.arrivals ((m.signal a.iteration a.rendezvous.arrive).signalsOf a.iteration) := by
    rw [Memory.signalsOf_signal_self, ht]
    cases a.rendezvous <;> exact Nat.succ_pos _
  have hpoll : a.wait.step 0 (m.signal a.iteration a.rendezvous.arrive) a.wait.start =
      .act (m.signal a.iteration a.rendezvous.arrive) [] (.ended (.ok ())) :=
        if_neg (by simpa [wait] using hall)
  have hwaiting : a.step 0 (m.signal a.iteration a.rendezvous.arrive) (.waiting a.wait.start) =
      .act (m.signal a.iteration a.rendezvous.arrive) [] (.ended (.ok ())) := by
    simp only [step, hpoll, Move.andThen_act, Stand.andThen_ended]
  exact .act rfl (.act hwaiting .refl)

/-- The calls that are left of a batch are made one after the other. -/
theorem Measurement.glides_batch {s : Measurement} (hs : (m.signalsOf s.iteration).spoiled = false)
    (l : Loop) (left : Nat) :
    Glides (s.step 0) m (.point (.checkSpoiled l (left + 1))) m (.point (.endBatch l)) := by
  have hcheck (left : Nat) :
      s.step 0 m (.checkSpoiled l left) = .act m [] (.point (.work l left)) :=
    if_neg (by simp [hs])
  induction left with
  | zero => exact .act (hcheck 1) (.ask rfl .refl)
  | succ left ih => exact .act (hcheck (left + 2)) (.ask rfl (by simpa using ih))

theorem Measurement.glides {s : Measurement} (hm : s.mode = .singleShot)
    (hs : (m.signalsOf s.iteration).spoiled = false) :
    ∃ r : Tally, r.spoiled = false ∧ Glides (s.step 0) m (.point .start) m (.ended (.ok r)) := by
  obtain ⟨left, hleft⟩ : ∃ left, s.batchSize.val = left + 1 :=
    Nat.exists_eq_succ_of_ne_zero (Nat.ne_of_gt s.batchSize.pos)
  have hbegin (l : Loop) : s.step 0 m (.beginBatch l) =
      .act m [] (.point (.checkSpoiled (l.nextBatch s 0) (left + 1))) := by
    rw [step, hleft]
  have hend (l : Loop) :
      s.step 0 m (.endBatch l) = .act m [] (.point (.stop (l.completed s 0) false)) := by
    simp only [step, hm, if_true]
  have hstop (l : Loop) :
      s.step 0 m (.stop l false) = .act m [] (.ended (.ok (l.result 0 false))) :=
    if_neg (by simp [hm])
  have hway (l : Loop) : ∃ r : Tally, r.spoiled = false ∧
      Glides (s.step 0) m (.point (.beginBatch l)) m (.ended (.ok r)) :=
    ⟨_, rfl,
      .act (hbegin l) ((glides_batch hs _ left).trans (.act (hend _) (.act (hstop _) .refl)))⟩
  obtain ⟨r, hr, hway⟩ := hway _
  exact ⟨r, hr, .act rfl hway⟩

theorem Clear.glides {c : Clear} (he : m.isEntered c.site = false) :
    ∃ m', Glides c.step m (.point .enter) m' (.ended (.ok ())) ∧ m'.failing = m.failing ∧
      m'.signals = m.signals ∧ m'.isEntered c.site = false ∧ m'.live? c.site = none := by
  have henter : c.step m .enter = .act (m.setEntered c.site true) [] (.point .store) :=
    if_neg (by simp [he])
  obtain ⟨m', hm'⟩ : ∃ m', m' = ((m.setEntered c.site true).clear c.site).setEntered c.site false :=
    ⟨_, rfl⟩
  have hleave :
      c.step ((m.setEntered c.site true).clear c.site) .leave = .act m' [] (.ended (.ok ())) := by
    rw [hm']
    rfl
  refine ⟨m', .act henter (.act rfl (.act hleave .refl)), ?_, ?_, ?_, ?_⟩
  · simp only [hm', Memory.setEntered, Memory.clear]
  · simp only [hm', Memory.setEntered, Memory.clear]
  · rw [hm', Memory.isEntered_setEntered, if_pos rfl]
  · rw [hm', Memory.live?_setEntered, Memory.live?_clear, if_pos rfl]

theorem Release.glides {a : Release} (hm : m.Held a.iteration a.site f) :
    ∃ m', Glides (a.step 0) m (.point .look) m' (.ended (.ok ())) ∧ m'.Calm a.iteration a.site := by
  have hlook : a.step 0 m .look = .act m [] (.point (.cleaning f .enter)) := by
    simp only [step, hm.live]
  obtain ⟨m₁, hturn, hrestored⟩ :=
    Turn.glides (t := a.turn f) hm.calm.unfailed (hm.calm.quiet.idle f hm.live _)
  have hm₁ : m₁.Held a.iteration a.site f := hm.restored hrestored
  obtain ⟨m₂, hclear, hfailing, hsignals, hleft, hvacant⟩ :=
    Clear.glides (c := a.clear) hm₁.calm.quiet.left
  have hcleaned :
      Glides (a.step 0) m (.point (.cleaning f .enter)) m₁ (.point (.clearing (.ok ()) .enter)) :=
    hturn.part (fun _ _ => rfl) rfl
  have hpart (m : Memory) (p : Clear.Point) : a.step 0 m (.clearing (.ok ()) p) =
      (a.clear.step m p).andThen (.clearing (.ok ())) fun _ => .ended (.ok ()) := rfl
  have hcleared : Glides (a.step 0) m₁ (.point (.clearing (.ok ()) .enter)) m₂ (.ended (.ok ())) :=
    hclear.part hpart rfl
  exact ⟨m₂, .act hlook (hcleaned.trans hcleared),
    hm₁.calm.of_same hfailing hsignals (.of_vacant hleft hvacant)⟩

end

/-! ### A pass of the only thread of an iteration that consists of a single shot -/

namespace Pass
variable {a : Pass} {m : Memory} {f : Nat} {r : Tally}

theorem glides_acquire (hs : a.seat.subgroup = 0) (hm : m.Calm a.iteration a.site) :
    ∃ m' f, Glides (a.step 0) m Pass.start m' (.point (.arrive f .announce)) ∧
      m'.Held a.iteration a.site f := by
  have hbegin : a.step 0 m .begin = .act m [a.enterNote .init .init] (.point (.acquire .look)) := by
    simp only [step, hs, if_true]
  obtain ⟨m', f, hway, hheld⟩ := Acquire.glides (a := a.acquisition) hm
  exact ⟨m', f, .act hbegin (hway.part (fun _ _ => rfl) rfl), hheld⟩

/-- Who is alone meets everybody, and takes its turn at the fixture. -/
theorem glides_meet (ht : a.iteration.threads.val = 1) (hm : m.Held a.iteration a.site f)
    (v : Rendezvous) (s : Stage) :
    ∃ m₁ m', Glides ((a.arrival v).step 0) m (.point .announce) m₁ (.ended (.ok ())) ∧
      Glides ((a.turn f s).step 0) m₁ (.point .enter) m' (.ended (.ok ())) ∧
        m'.Held a.iteration a.site f := by
  obtain ⟨m₁, hm₁⟩ : ∃ m₁, m₁ = m.signal a.iteration v.arrive := ⟨_, rfl⟩
  have hheld : m₁.Held a.iteration a.site f := hm₁ ▸ hm.arrive _
  obtain ⟨m', hturn, hrestored⟩ := Turn.glides (t := a.turn f s) hheld.calm.unfailed
    (hheld.calm.quiet.idle f hheld.live _)
  exact ⟨m₁, m', hm₁ ▸ Arrival.glides ht, hturn, hheld.restored hrestored⟩

theorem glides_setUp (ht : a.iteration.threads.val = 1) (hmode : a.mode = .singleShot)
    (hm : m.Held a.iteration a.site f) :
    ∃ m', Glides (a.step 0) m (.point (.arrive f .announce)) m' (.point (.noteStart f 0)) ∧
      m'.Held a.iteration a.site f := by
  have hcold : a.afterSetUp f = .noteStart f 0 := if_neg (by simp [hmode, Mode.hasWarmLoops])
  obtain ⟨m₁, m', harrive, hturn, hheld⟩ := glides_meet ht hm .setUp ⟨.iteration, .setUp⟩
  have hmet : Glides (a.step 0) m (.point (.arrive f .announce)) m₁ (.point (.setUp f .enter)) :=
    harrive.part (fun _ _ => rfl) rfl
  have hup : Glides (a.step 0) m₁ (.point (.setUp f .enter)) m' (.point (a.afterSetUp f)) :=
    hturn.part (fun _ _ => rfl) rfl
  exact ⟨m', hcold ▸ hmet.trans hup, hheld⟩

theorem glides_measure (hmode : a.mode = .singleShot) (hm : m.Held a.iteration a.site f) :
    ∃ m' r, Glides (a.step 0) m (.point (.noteStart f 0)) m' (.point (.depart f r .announce)) ∧
      r.spoiled = false ∧ m'.Held a.iteration a.site f := by
  obtain ⟨m₁, hm₁⟩ : ∃ m₁, m₁ = m.signal a.iteration Signals.noteStart := ⟨_, rfl⟩
  obtain ⟨m₂, hm₂⟩ : ∃ m₂, m₂ = m₁.signal a.iteration Signals.noteStop := ⟨_, rfl⟩
  have hheld₁ : m₁.Held a.iteration a.site f := hm₁ ▸ hm.signal fun _ => ⟨rfl, rfl⟩
  have hheld₂ : m₂.Held a.iteration a.site f := hm₂ ▸ hheld₁.signal fun _ => ⟨rfl, rfl⟩
  obtain ⟨r, hr, hmeasure⟩ := Measurement.glides (s := a.measurement) hmode hheld₁.calm.unspoiled
  have hcold : a.afterMeasured f 0 r = .depart f (r.addOps 0) .announce :=
    if_neg (by simp [hmode, Mode.hasWarmLoops])
  have hmeasured :
      Glides (a.step 0) m₁ (.point (.measure f 0 .start)) m₁ (.point (.noteStop f 0 r)) :=
    hmeasure.part (fun _ _ => rfl) rfl
  have hnoteStop : a.step 0 m₁ (.noteStop f 0 r) =
      .act m₂ [a.enterNote .measuring .warmdown] (.point (.depart f (r.addOps 0) .announce)) := by
    rw [hm₂, ← hcold]
    rfl
  subst hm₁
  exact ⟨m₂, r.addOps 0, .act rfl (hmeasured.trans (.act hnoteStop .refl)), hr, hheld₂⟩

theorem glides_tearDown (ht : a.iteration.threads.val = 1) (hm : m.Held a.iteration a.site f) :
    ∃ m', Glides (a.step 0) m (.point (.depart f r .announce)) m' (.point (a.afterTearDown r)) ∧
      m'.Held a.iteration a.site f := by
  obtain ⟨m₁, m', harrive, hturn, hheld⟩ := glides_meet ht hm .tearDown ⟨.iteration, .tearDown⟩
  have hmet :
      Glides (a.step 0) m (.point (.depart f r .announce)) m₁ (.point (.tearDown f r .enter)) :=
    harrive.part (fun _ _ => rfl) rfl
  have hdown :
      Glides (a.step 0) m₁ (.point (.tearDown f r .enter)) m' (.point (a.afterTearDown r)) :=
    hturn.part (fun _ _ => rfl) rfl
  exact ⟨m', hmet.trans hdown, hheld⟩

theorem glides_finish {from_ : Phase} (hr : r.spoiled = false) (hm : m.Calm a.iteration a.site) :
    Glides (a.step 0) m (.point (.finish from_ r)) m (.ended (.ok (r.report a.mode a.iteration))) :=
  .act (if_neg (by simp [hr, Memory.isInterrupted, hm.uninterrupted])) .refl

/-- In the last iteration the fixture is given back. -/
theorem glides_end (hr : r.spoiled = false) (hm : m.Held a.iteration a.site f) :
    ∃ m', Glides (a.step 0) m (.point (a.afterTearDown r)) m'
      (.ended (.ok (r.report a.mode a.iteration))) ∧ m'.Calm a.iteration a.site := by
  unfold afterTearDown
  cases a.iteration.isLast with
  | false => exact ⟨m, glides_finish hr hm.calm, hm.calm⟩
  | true =>
    obtain ⟨m', hrelease, hcalm⟩ := Release.glides (a := a.giveBack) hm
    have hreleased :
        Glides (a.step 0) m (.point (.release r .look)) m' (.point (.finish .trialTeardown r)) :=
      hrelease.part (fun _ _ => rfl) rfl
    exact ⟨m', .act rfl (hreleased.trans (glides_finish hr hcalm)), hcalm⟩

theorem glides (hs : a.seat.subgroup = 0) (ht : a.iteration.threads.val = 1)
    (hmode : a.mode = .singleShot) (hm : m.Calm a.iteration a.site) :
    ∃ m' r, Glides (a.step 0) m Pass.start m' (.ended (.ok r)) ∧ m'.Calm a.iteration a.site := by
  obtain ⟨m₁, f, hacquire, hm₁⟩ := glides_acquire hs hm
  obtain ⟨m₂, hsetUp, hm₂⟩ := glides_setUp ht hmode hm₁
  obtain ⟨m₃, r, hmeasure, hr, hm₃⟩ := glides_measure hmode hm₂
  obtain ⟨m₄, htearDown, hm₄⟩ := glides_tearDown ht hm₃
  obtain ⟨m₅, hend, hm₅⟩ := glides_end hr hm₄
  exact ⟨m₅, _, hacquire.trans (hsetUp.trans (hmeasure.trans (htearDown.trans hend))), hm₅⟩

end Pass

/-! ### A trial of single shots on one thread -/

theorem Trial.iterations_pos (t : Trial) : 0 < t.iterations := by
  have hwanted : 0 < t.warmups + t.measurements := Nat.add_pos_right _ t.measurements.pos
  have hmost : 0 < Nat.pow 2 32 - 1 := Nat.sub_pos_of_lt (Nat.one_lt_two_pow (by decide))
  exact Nat.lt_min.mpr ⟨hwanted, hmost⟩

namespace Execution
variable {x : Execution} {m m' m₀ : Memory} {h : List Entry} {w : World} {index : Nat}
  {mask : UInt32} {c : Iteration}

structure SingleShot (x : Execution) : Prop where
  threads : x.threads.val = 1
  subgroups : x.trial.subgroups.val = 1
  mode : x.trial.benchmark.mode = .singleShot

def Comes (x : Execution) (m₀ : Memory) (index : Nat) (g : Group) (m : Memory) : Prop :=
  ∃ h w, x.Run m₀ h w ∧ w.point = .running index g ∧ w.memory = m

theorem Comes.conductor {members : List (Strand Pass.Point Report)}
    {s t : Stand Conductor.Point Unit} (h : Glides ((x.conductor c).step 0) m s m' t)
    (hs : x.Comes m₀ index ⟨c, members, ⟨s, false⟩⟩ m) :
    x.Comes m₀ index ⟨c, members, ⟨t, false⟩⟩ m' := by
  refine h.along (P := fun m s => x.Comes m₀ index ⟨c, members, s⟩ m) ?_ hs
  rintro m s m' es s' ⟨h, w, hr, hp, rfl⟩ ha
  have hstep : x.advance .conductor 0 (.returned 0) w =
      some ({ w with memory := m', point := .running index ⟨c, members, s'⟩ }, es) := by
    simp only [advance, advanceConductor, hp, ha]
  exact ⟨_, _, .step hr hstep, rfl, rfl⟩

theorem Comes.member {d : Strand Conductor.Point Unit} {s t : Stand Pass.Point Report}
    (h : Glides ((x.pass c 0).step 0) m s m' t) (hs : x.Comes m₀ index ⟨c, [⟨s, false⟩], d⟩ m) :
    x.Comes m₀ index ⟨c, [⟨t, false⟩], d⟩ m' := by
  refine h.along (P := fun m s => x.Comes m₀ index ⟨c, [s], d⟩ m) ?_ hs
  rintro m s m' es s' ⟨h, w, hr, hp, rfl⟩ ha
  have hstep : x.advance (.member 0) 0 (.returned 0) w =
      some ({ w with memory := m', point := .running index ⟨c, [s'], d⟩ }, es) := by
    simp only [advance, advanceMember, hp, List.getElem?_cons_zero, ha, List.set_cons_zero]
  exact ⟨_, _, .step hr hstep, rfl, rfl⟩

/-- Without warm loops the conductor has nothing to wait for. -/
theorem glides_conductor (hx : x.SingleShot) (hm : m.Calm c x.site) :
    ∃ m', Glides ((x.conductor c).step 0) m (.point (x.conductor c).start) m' (.ended (.ok ())) ∧
      m'.Calm c x.site := by
  have hstart : (x.conductor c).start = .freeWarmup :=
    if_neg (by simp [conductor, hx.mode, Mode.hasWarmLoops])
  obtain ⟨m₁, hm₁⟩ : ∃ m₁, m₁ = m.signal c Signals.freeWarmup := ⟨_, rfl⟩
  obtain ⟨m₂, hm₂⟩ : ∃ m₂, m₂ = m₁.signal c Signals.close := ⟨_, rfl⟩
  obtain ⟨m₃, hm₃⟩ : ∃ m₃, m₃ = m₂.signal c Signals.freeWarmdown := ⟨_, rfl⟩
  have hcalm₁ : m₁.Calm c x.site := hm₁ ▸ hm.signal fun _ => ⟨rfl, rfl⟩
  have hcalm₂ : m₂.Calm c x.site := hm₂ ▸ hcalm₁.signal fun _ => ⟨rfl, rfl⟩
  have hcalm₃ : m₃.Calm c x.site := hm₃ ▸ hcalm₂.signal fun _ => ⟨rfl, rfl⟩
  have hfirst : (x.conductor c).step 0 m .freeWarmup = .act m₁ [] (.point .freeWindow) := by
    rw [hm₁]; rfl
  have hsecond : (x.conductor c).step 0 m₁ .freeWindow = .act m₂ [] (.point .freeWarmdown) := by
    rw [hm₂]; rfl
  have hthird : (x.conductor c).step 0 m₂ .freeWarmdown = .act m₃ [] (.ended (.ok ())) := by
    rw [hm₃]; rfl
  rw [hstart]
  exact ⟨m₃, .act hfirst (.act hsecond (.act hthird .refl)), hcalm₃⟩

/-- An iteration is launched, and everybody in it ends well. -/
theorem Run.iterate (hx : x.SingleShot) (hr : x.Run m₀ h w) (hp : w.point = .launch index mask)
    (hf : w.memory.failing.get x.flag = false) (hq : w.memory.Quiet x.site) :
    ∃ g m', x.Comes m₀ index g m' ∧ g.hasEnded = true ∧ (∀ o ∈ g.outcomes, o.isOk = true) ∧
      m'.failing.get x.flag = false ∧ m'.Quiet x.site := by
  obtain ⟨m, hm⟩ : ∃ m, m = { w.memory with
    signals := w.memory.signals.put (x.iteration index 0).number { mask } } := ⟨_, rfl⟩
  have hcalm : m.Calm (x.iteration index 0) x.site := by
    have hsignals : m.signalsOf (x.iteration index 0) = { mask } := by
      rw [hm]
      exact Table.get_put_self ..
    rw [hm] at hsignals ⊢
    exact ⟨hf, by rw [hsignals], by rw [hsignals], hq.left, hq.idle⟩
  have hlaunch : x.advance .caller 0 (.returned 0) w =
      some ({ w with memory := m, point := .running index (x.group (x.iteration index 0)) },
        [.noted (.startingIteration x.trial.benchmark.label index (x.isWarmup index))]) := by
    simp only [advance, advanceCaller, hp, hm]
  have hgroup : x.group (x.iteration index 0) = ⟨x.iteration index 0, [⟨Pass.start, false⟩],
      ⟨.point (x.conductor (x.iteration index 0)).start, false⟩⟩ := by
    rw [group, hx.threads]
    rfl
  have hlaunched : x.Comes m₀ index (x.group (x.iteration index 0)) m :=
    ⟨_, _, .step hr hlaunch, rfl, rfl⟩
  rw [hgroup] at hlaunched
  obtain ⟨m₁, hconductor, hcalm₁⟩ := glides_conductor hx hcalm
  obtain ⟨m₂, r, hpass, hcalm₂⟩ :=
    Pass.glides (a := x.pass (x.iteration index 0) 0) (Nat.zero_div _) hx.threads hx.mode
    hcalm₁
  refine ⟨_, m₂, (hlaunched.conductor hconductor).member hpass, rfl, fun o ho => ?_,
    hcalm₂.unfailed, hcalm₂.quiet⟩
  cases List.mem_singleton.mp (ho : o ∈ [.ok r])
  rfl

theorem advance_settle {g : Group} (hp : w.point = .running index g) (he : g.hasEnded = true) :
    x.advance .caller 0 (.returned 0) w = some (x.settle w index g, []) := by
  simp only [advance, advanceCaller, hp, he, if_true]

/-- What is left of a trial whose next iteration is about to be launched can end well. -/
theorem Run.exists_ok (hx : x.SingleShot) (left : Nat)
    (hleft : x.trial.iterations = index + left + 1) (hr : x.Run m₀ h w)
    (hp : w.point = .launch index mask) (hf : w.memory.failing.get x.flag = false)
    (hq : w.memory.Quiet x.site) : ∃ h w s, x.Run m₀ h w ∧ w.point = .ended (.ok s) := by
  induction left generalizing h w index mask with
  | zero =>
    obtain ⟨g, _, ⟨h', w', hr', hp', rfl⟩, he, ho, -, -⟩ := hr.iterate hx hp hf hq
    have hsettle :
        (x.settle w' index g).point = .ended (.ok (x.summary (x.settle w' index g).reports)) := by
      rw [settle_eq_of_ok ho]
      exact if_pos hleft.symm
    exact ⟨_, _, _, .step hr' (advance_settle hp' he), hsettle⟩
  | succ left ih =>
    obtain ⟨g, _, ⟨h', w', hr', hp', rfl⟩, he, ho, hf', hq'⟩ := hr.iterate hx hp hf hq
    have hsettle : (x.settle w' index g).point =
        .launch (index + 1) (w'.memory.signalsOf g.iteration).mask := by
      rw [settle_eq_of_ok ho]
      exact if_neg (by omega)
    have hmemory : (x.settle w' index g).memory = w'.memory := memory_settle ..
    exact ih (by omega) (.step hr' (advance_settle hp' he)) hsettle (hmemory ▸ hf') (hmemory ▸ hq')

/-- A trial of single shots on one thread can end well, whatever the number of its iterations. -/
theorem exists_run_ok (hx : x.SingleShot) (hf : m.failing.get x.flag = false)
    (hq : m.Quiet x.site) :
    ∃ h w s, x.Run m h w ∧ w.point = .ended (.ok s) := by
  obtain ⟨left, hleft⟩ : ∃ left, x.trial.iterations = left + 1 :=
    Nat.exists_eq_succ_of_ne_zero (Nat.ne_of_gt x.trial.iterations_pos)
  have hstart : (x.start m).point = .launch 0 0 := by
    refine if_pos ?_
    rw [hx.threads, hx.subgroups]
  exact Run.exists_ok hx left (by omega) .start hstart hf hq

end Execution
end LoadBench
