import LoadBench.Proofs.Attendance

/-!
# What a pass can count on

Where a pass stands says something about the shared state: it has left a warm loop because the loop
was let go (`Pass.Released`), and without success only because the trial fails or the iteration
was interrupted (`Pass.Excused`). Both stay true whatever the others do, since flags are only
raised and loops only let go (`Memory.Later`).
-/

namespace LoadBench

/-- What the steps of members leave as it is among the signals, and what they may only add to. -/
structure Signals.Attended (s s' : Signals) : Prop where
  interrupted : s'.interrupted = s.interrupted
  spoiled : s'.spoiled = s.spoiled
  warmupHeld : s'.warmupHeld = s.warmupHeld
  warmdownHeld : s'.warmdownHeld = s.warmdownHeld
  warmupReady : s.warmupReady ≤ s'.warmupReady
  warmdownReady : s.warmdownReady ≤ s'.warmdownReady

theorem Signals.Attended.refl (s : Signals) : s.Attended s :=
  ⟨rfl, rfl, rfl, rfl, Nat.le_refl _, Nat.le_refl _⟩

theorem Signals.Attended.signal {m : Memory} {c : Iteration} {f : Signals → Signals}
    (hf : ∀ s : Signals, s.Attended (f s)) :
    (m.signalsOf c).Attended ((m.signal c f).signalsOf c) := by
  rw [Memory.signalsOf_signal_self]
  exact hf _

namespace Memory

/-- Flags are raised and loops are let go, never the other way. -/
structure Later (c : Iteration) (m m' : Memory) : Prop where
  failed : m.hasFailed c = true → m'.hasFailed c = true
  interrupted : m.isInterrupted c = true → m'.isInterrupted c = true
  warmup : (m.signalsOf c).warmupHeld = false → (m'.signalsOf c).warmupHeld = false
  warmdown : (m.signalsOf c).warmdownHeld = false → (m'.signalsOf c).warmdownHeld = false

variable {c : Iteration} {m m' : Memory}

theorem Later.halted (h : m.Later c m') (hm : m.Halted c) : m'.Halted c :=
  hm.imp h.failed h.interrupted

theorem Later.of_attended (hf : m.hasFailed c = true → m'.hasFailed c = true)
    (hs : (m.signalsOf c).Attended (m'.signalsOf c)) : m.Later c m' where
  failed := hf
  interrupted hi := hs.interrupted.trans hi
  warmup hw := hs.warmupHeld.trans hw
  warmdown hw := hs.warmdownHeld.trans hw

end Memory

/-! ### Steps of members -/

section
variable {m m' : Memory} {c : Iteration}

theorem Turn.Step.failed {t : Turn} {p : Turn.Point} {s : Stand Turn.Point Unit}
    (h : t.Step m p m' s) (hf : m.hasFailed c = true) : m'.hasFailed c = true := by
  cases h with
  | condemn => exact Memory.hasFailed_setFailed_of _ _ _ hf
  | _ => exact hf

theorem Acquire.Step.failed {a : Acquire} {p : Acquire.Point} {s : Stand Acquire.Point Nat}
    (h : a.Step m p m' s) (hf : m.hasFailed c = true) : m'.hasFailed c = true := by
  cases h with
  | condemn => exact Memory.hasFailed_setFailed_of _ _ _ hf
  | _ => exact hf

theorem Clear.Step.hasFailed {a : Clear} {p : Clear.Point} {s : Stand Clear.Point Unit}
    (h : a.Step m p m' s) (c : Iteration) : m'.hasFailed c = m.hasFailed c := by
  cases h <;> rfl

theorem Release.Step.failed {a : Release} {p : Release.Point} {s : Stand Release.Point Unit}
    (h : a.Step m p m' s) (hf : m.hasFailed c = true) : m'.hasFailed c = true := by
  cases h with
  | cleaning ht | cleaned ht | crashed ht => exact ht.failed hf
  | clearing hc | cleared hc => exact (hc.hasFailed c).trans hf
  | _ => exact hf

theorem Arrival.Step.hasFailed {a : Arrival} {p : Arrival.Point} {s : Stand Arrival.Point Unit}
    (h : a.Step m p m' s) (c : Iteration) : m'.hasFailed c = m.hasFailed c := by
  cases h <;> rfl

theorem Measurement.Step.hasFailed {a : Measurement} {p : Measurement.Point}
    {s : Stand Measurement.Point Tally} (h : a.Step m p m' s) (c : Iteration) :
    m'.hasFailed c = m.hasFailed c := by
  cases h <;> rfl

theorem Arrival.Step.attended {a : Arrival} {p : Arrival.Point} {s : Stand Arrival.Point Unit}
    (h : a.Step m p m' s) : (m.signalsOf a.iteration).Attended (m'.signalsOf a.iteration) := by
  cases h with
  | announce =>
    apply Signals.Attended.signal
    intro s
    cases a.rendezvous <;> exact ⟨rfl, rfl, rfl, rfl, Nat.le_refl _, Nat.le_refl _⟩
  | _ => exact .refl _

theorem Measurement.Step.attended {a : Measurement} {p : Measurement.Point}
    {s : Stand Measurement.Point Tally} (h : a.Step m p m' s) :
    (m.signalsOf a.iteration).Attended (m'.signalsOf a.iteration) := by
  cases h with
  | widenMask => exact .signal fun s => ⟨rfl, rfl, rfl, rfl, Nat.le_refl _, Nat.le_refl _⟩
  | _ => exact .refl _

namespace Pass
variable {a : Pass} {p : Point} {t : Stand Point Report}

theorem Step.failed (h : a.Step m p m' t) (hf : m.hasFailed c = true) : m'.hasFailed c = true := by
  cases h with
  | reject | condemn => exact Memory.hasFailed_setFailed_of _ _ _ hf
  | acquire h | acquired h => exact h.failed hf
  | arrive h | arrived h | depart h | met h | notMet h => exact (h.hasFailed c).trans hf
  | setUp h | setUpDone h | tearDown h | tearDownDone h => exact h.failed hf
  | measure h | measured h => exact (h.hasFailed c).trans hf
  | release h | released h => exact h.failed hf
  | _ => exact hf

theorem Step.attended (h : a.Step m p m' t) :
    (m.signalsOf a.iteration).Attended (m'.signalsOf a.iteration) := by
  have same (hs : m'.signalsOf a.iteration = m.signalsOf a.iteration) :
      (m.signalsOf a.iteration).Attended (m'.signalsOf a.iteration) := hs ▸ .refl _
  cases h with
  | acquire h | acquired h => exact same (h.signalsOf _)
  | setUp h | setUpDone h | tearDown h | tearDownDone h => exact same (h.signalsOf _)
  | release h | released h => exact same (h.signalsOf _)
  | arrive h | arrived h | depart h | met h | notMet h => exact h.attended
  | measure h | measured h => exact h.attended
  | enterWarmup | enterWarmdown | noteStart | noteStop | force =>
    exact .signal fun s => by constructor <;> simp [Signals.enterWarmup, Signals.enterWarmdown,
      Signals.noteStart, Signals.noteStop, Signals.force]
  | _ => exact .refl _

theorem Step.later (h : a.Step m p m' t) : m.Later a.iteration m' :=
  .of_attended h.failed h.attended

end Pass
end

/-! ### Loops that were let go -/

namespace Pass

def Released (mode : Mode) (s : Signals) : Stand Point Report → Prop
  | .point (.noteStart ..) | .point (.measure ..) | .point (.noteStop ..)
  | .point (.enterWarmdown ..) => mode.hasWarmLoops = true → s.warmupHeld = false
  | .point (.depart ..) | .point (.checkInterrupted ..) | .point (.checkFailed ..)
  | .point (.force ..) | .point (.tearDown ..) | .point (.enterRelease _) | .point (.release ..)
  | .point (.finish ..) | .ended (.ok _) => mode.hasWarmLoops = true → s.warmdownHeld = false
  | _ => True

theorem Released.mono {mode : Mode} {s s' : Signals} {t : Stand Point Report}
    (h : Released mode s t) (h₁ : s.warmupHeld = false → s'.warmupHeld = false)
    (h₂ : s.warmdownHeld = false → s'.warmdownHeld = false) : Released mode s' t := by
  cases t with
  | ended o =>
    cases o with
    | ok r => exact fun hm => h₂ (h hm)
    | failed e | crashed text => trivial
  | point p =>
    cases p with
    | noteStart | measure | noteStop | enterWarmdown => exact fun hm => h₁ (h hm)
    | depart | checkInterrupted | checkFailed | force | tearDown | enterRelease
    | release | finish =>
      exact fun hm => h₂ (h hm)
    | _ => trivial

theorem Step.keeps_released {a : Pass} {m m' : Memory} {p : Point} {t : Stand Point Report}
    (h : a.Step m p m' t) (hp : Released a.mode (m.signalsOf a.iteration) (.point p)) :
    Released a.mode (m.signalsOf a.iteration) t := by
  cases h with
  | @acquired _ _ o | @arrived _ _ _ o => cases o <;> trivial
  | @setUpDone f _ _ o =>
    cases o with
    | ok v =>
      change Released _ _ (.point (a.afterSetUp f))
      unfold afterSetUp
      split
      · trivial
      · rename_i hm
        exact fun h => absurd h hm
    | failed e | crashed text => trivial
  | leaveWarmup hg => exact fun _ => hg
  | @measured f ops _ _ o =>
    cases o with
    | ok r => exact hp
    | failed e | crashed text => trivial
  | @noteStop f ops r =>
    unfold afterMeasured
    split
    · exact hp
    · rename_i hm
      exact fun h => absurd h hm
  | leaveWarmdown hg => exact fun _ => hg
  | @tearDownDone f r _ _ o =>
    cases o with
    | ok v =>
      change Released _ _ (.point (a.afterTearDown r))
      unfold afterTearDown
      split <;> exact hp
    | failed e | crashed text => trivial
  | @released r _ _ o =>
    cases o with
    | ok v => exact hp
    | failed e | crashed text => trivial
  | noteStart | measure | depart | met | notMet | interrupted | proceed | force | tearDown
  | enterRelease | release | finish => exact hp
  | _ => trivial

end Pass

/-! ### Ends without success -/

/-- An operation fails only in an iteration that is halted, and crashes only if the trial fails. -/
def Outcome.Excused {α : Type} (m : Memory) (c : Iteration) : Outcome α → Prop
  | ok _ => True
  | failed _ => m.Halted c
  | crashed _ => m.hasFailed c = true

namespace Outcome.Excused
variable {α : Type} {m m' : Memory} {c : Iteration} {o : Outcome α}

theorem of_failed (h : o.isOk = false → m.hasFailed c = true) : o.Excused m c := by
  cases o with
  | ok v => trivial
  | failed e => exact .inl (h rfl)
  | crashed text => exact h rfl

theorem mono (h : o.Excused m c) (hl : m.Later c m') : o.Excused m' c := by
  cases o with
  | ok v => trivial
  | failed e => exact hl.halted h
  | crashed text => exact hl.failed h

end Outcome.Excused

/-- Whoever leaves a turn without success has marked the trial failing, or has found it so. -/
def Turn.Excused (m : Memory) (c : Iteration) : Stand Turn.Point Unit → Prop
  | .point (.leave r) => r.isOk = false → m.hasFailed c = true
  | .point _ => True
  | .ended r => r.Excused m c

theorem Turn.Excused.mono {m m' : Memory} {c : Iteration} {s : Stand Turn.Point Unit}
    (h : Turn.Excused m c s) (hl : m.Later c m') : Turn.Excused m' c s := by
  cases s with
  | ended r => exact Outcome.Excused.mono h hl
  | point p =>
    cases p with
    | leave r => exact fun hr => hl.failed (h hr)
    | _ => trivial

theorem Turn.Step.excused {t : Turn} {m m' : Memory} {p : Turn.Point} {s : Stand Turn.Point Unit}
    (h : t.Step m p m' s) (hp : Turn.Excused m t.iteration (.point p)) :
    Turn.Excused m' t.iteration s := by
  cases h with
  | giveUp hh => exact hh
  | foundFailed hf => exact .inl hf
  | abort hf => exact fun _ => hf
  | settled => exact fun hr => absurd hr (by decide)
  | condemn => exact fun _ => Memory.hasFailed_setFailed_self _ _
  | commit => exact fun hr => absurd hr (by decide)
  | leave => exact .of_failed hp
  | _ => trivial

def Acquire.Excused (m : Memory) (c : Iteration) : Stand Acquire.Point Nat → Prop
  | .point (.leave r) => r.isOk = false → m.hasFailed c = true
  | .point _ => True
  | .ended r => r.Excused m c

theorem Acquire.Excused.mono {m m' : Memory} {c : Iteration} {s : Stand Acquire.Point Nat}
    (h : Acquire.Excused m c s) (hl : m.Later c m') : Acquire.Excused m' c s := by
  cases s with
  | ended r => exact Outcome.Excused.mono h hl
  | point p =>
    cases p with
    | leave r => exact fun hr => hl.failed (h hr)
    | _ => trivial

theorem Acquire.Step.excused {a : Acquire} {m m' : Memory} {p : Acquire.Point}
    {s : Stand Acquire.Point Nat} (h : a.Step m p m' s)
    (hp : Acquire.Excused m a.iteration (.point p)) :
    Acquire.Excused m' a.iteration s := by
  cases h with
  | foundLate => exact fun hr => absurd hr (by simp)
  | abort hf => exact fun _ => hf
  | publish => exact fun hr => absurd hr (by simp)
  | condemn => exact fun _ => Memory.hasFailed_setFailed_self _ _
  | leave => exact .of_failed hp
  | _ => trivial

/-- A release clears its site whatever its turn has come to, and ends as the turn did. -/
def Release.Excused (m : Memory) (c : Iteration) : Stand Release.Point Unit → Prop
  | .point (.cleaning _ p) => Turn.Excused m c (.point p)
  | .point (.clearing r _) => r.Excused m c
  | .point _ => True
  | .ended r => r.Excused m c

theorem Release.Excused.mono {m m' : Memory} {c : Iteration} {s : Stand Release.Point Unit}
    (h : Release.Excused m c s) (hl : m.Later c m') : Release.Excused m' c s := by
  cases s with
  | ended r => exact Outcome.Excused.mono h hl
  | point p =>
    cases p with
    | cleaning f p => exact Turn.Excused.mono h hl
    | clearing r p => exact Outcome.Excused.mono h hl
    | look | checkFailed => trivial

theorem Clear.Step.later {a : Clear} {m m' : Memory} {p : Clear.Point} {s : Stand Clear.Point Unit}
    (h : a.Step m p m' s) (c : Iteration) : m.Later c m' :=
  .of_attended (fun hf => (h.hasFailed c).trans hf) ((h.signalsOf c) ▸ .refl _)

theorem Release.Step.excused {a : Release} {m m' : Memory} {p : Release.Point}
    {s : Stand Release.Point Unit} (h : a.Step m p m' s)
    (hp : Release.Excused m a.iteration (.point p)) :
    Release.Excused m' a.iteration s := by
  cases h with
  | cleaning ht | cleaned ht | crashed ht => exact ht.excused hp
  | abort hf => exact .inl hf
  | clearing hc | cleared hc => exact Outcome.Excused.mono hp (hc.later _)
  | _ => trivial

/-- A measured loop is spoiled only when the iteration is halted. -/
def Measurement.Excused (m : Memory) (c : Iteration) : Stand Measurement.Point Tally → Prop
  | .point (.stop _ b) => b = true → m.Halted c
  | .point (.widenMask _ r) | .ended (.ok r) => r.spoiled = true → m.Halted c
  | _ => True

theorem Measurement.Excused.mono {m m' : Memory} {c : Iteration} {s : Stand Measurement.Point Tally}
    (h : Measurement.Excused m c s) (hl : m.Later c m') : Measurement.Excused m' c s := by
  cases s with
  | ended o =>
    cases o with
    | ok r => exact fun hr => hl.halted (h hr)
    | failed e | crashed text => trivial
  | point p =>
    cases p with
    | stop l b | widenMask l r => exact fun hr => hl.halted (h hr)
    | _ => trivial

theorem Measurement.Step.excused {a : Measurement} {m m' : Memory} {p : Measurement.Point}
    {s : Stand Measurement.Point Tally} (h : a.Step m p m' s)
    (hs : (m.signalsOf a.iteration).spoiled = true → m.Halted a.iteration)
    (hp : Measurement.Excused m a.iteration (.point p)) : Measurement.Excused m' a.iteration s := by
  have hl : m.Later a.iteration m' := .of_attended (fun hf => (h.hasFailed _).trans hf) h.attended
  cases h with
  | spoiled hm => exact fun _ => hs hm
  | endShot | windowClosed => exact fun hb => absurd hb (by decide)
  | stop hr | stopSampling hr => exact fun ht => hp (hr.symm.trans ht)
  | widenMask => exact fun ht => hl.halted (hp ht)
  | _ => trivial

namespace Pass

/-- Where a pass has reason to fail, or is unwinding past the last checkpoint. -/
def Point.Excused (m : Memory) (c : Iteration) (r : Nat) : Point → Prop
  | .acquire p => Acquire.Excused m c (.point p)
  | .setUp _ p => Turn.Excused m c (.point p)
  | .measure _ _ p => Measurement.Excused m c (.point p)
  | .noteStop _ _ t | .enterWarmdown _ _ t | .warmdownGate _ _ t | .warmdownWork _ _ t
  | .depart _ t _ | .enterRelease t | .finish _ t => t.spoiled = true → m.Halted c
  | .checkInterrupted _ _ | .fail .. => m.Halted c
  | .checkFailed _ _ | .force _ _ => m.isInterrupted c = true
  | .tearDown _ t p => (t.spoiled = true → m.Halted c) ∧ Turn.Excused m c (.point p)
  | .release t p => (t.spoiled = true → m.Halted c) ∧ Release.Excused m c (.point p)
  | .condemn .. => r = 4 → m.hasFailed c = true
  | .begin | .reject | .arrive .. | .enterWarmup .. | .warmupGate .. | .warmupWork ..
  | .noteStart .. => True

/-- A pass fails only when the iteration is halted, and the trial is failing by
the time it has unwound. -/
def Excused (m : Memory) (c : Iteration) (r : Nat) : Stand Point Report → Prop
  | .point p => p.Excused m c r
  | .ended o => o.Excused m c

theorem Excused.mono {m m' : Memory} {c : Iteration} {r : Nat} {t : Stand Point Report}
    (h : Excused m c r t) (hl : m.Later c m') : Excused m' c r t := by
  cases t with
  | ended o => exact Outcome.Excused.mono h hl
  | point p =>
    cases p with
    | acquire p => exact Acquire.Excused.mono h hl
    | setUp f p => exact Turn.Excused.mono h hl
    | measure f ops p => exact Measurement.Excused.mono h hl
    | noteStop | enterWarmdown | warmdownGate | warmdownWork | depart | enterRelease | finish =>
      exact fun hs => hl.halted (h hs)
    | checkInterrupted | fail => exact hl.halted h
    | checkFailed | force => exact hl.interrupted h
    | tearDown f t p => exact ⟨fun hs => hl.halted (h.1 hs), Turn.Excused.mono h.2 hl⟩
    | release t p => exact ⟨fun hs => hl.halted (h.1 hs), Release.Excused.mono h.2 hl⟩
    | condemn => exact fun hr => hl.failed (h hr)
    | _ => trivial

/-- The mark counts only where a pass unwinds. -/
theorem Excused.of_mark {m : Memory} {c : Iteration} {r r' : Nat} {t : Stand Point Report}
    (h : Excused m c r t) (hr : Doomed t → r' = r) : Excused m c r' t := by
  cases t with
  | ended o => exact h
  | point p =>
    cases p with
    | condemn phase text => exact hr trivial ▸ h
    | _ => exact h

/-- A part that ends with an excuse leads to the point that follows, or excused out of its phase. -/
theorem excused_onward {α : Type} {m : Memory} {c : Iteration} {r : Nat} {phase : Phase}
    {next : α → Point} {o : Outcome α} (ho : o.Excused m c)
    (hn : ∀ v, (next v).Excused m c r) : Excused m c r (onward phase next o) := by
  cases o with
  | ok v => exact hn v
  | failed e => exact ho
  | crashed text => exact fun _ => ho

/-- Every step of a pass has its excuse, as long as spoiling has one. -/
theorem Step.excused {a : Pass} {m m' : Memory} {p : Point} {t : Stand Point Report} {r : Nat}
    (h : a.Step m p m' t) (hr : p.Passed r)
    (hs : (m.signalsOf a.iteration).spoiled = true → m.Halted a.iteration)
    (hp : p.Excused m a.iteration r) : Excused m' a.iteration r t := by
  have hl := h.later
  cases h with
  | reject => exact .inl (Memory.hasFailed_setFailed_self _ _)
  | acquire h => exact h.excused hp
  | acquired h => exact excused_onward (h.excused hp) fun _ => trivial
  | arrived h =>
    cases h with
    | met => trivial
    | abort hh => exact hh
  | setUp h => exact h.excused hp
  | @setUpDone f _ _ o h =>
    apply excused_onward (h.excused hp)
    intro _
    unfold afterSetUp
    split <;> trivial
  | warmupCrashed =>
    have hr : r = 2 := hr
    intro h4
    omega
  | measure h => exact h.excused hs hp
  | @measured f ops _ _ o h =>
    have hp := h.excused hs hp
    cases o with
    | ok v => exact hp
    | failed e => cases h
    | crashed text =>
      have hr : r = 2 := hr
      intro h4
      omega
  | @noteStop f ops r =>
    change Point.Excused _ _ _ (a.afterMeasured f ops r)
    unfold afterMeasured
    split <;> exact fun hs => hl.halted (hp hs)
  | warmdownCrashed =>
    have hr : r = 3 := hr
    intro h4
    omega
  | enterWarmdown | depart => exact fun hs => hl.halted (hp hs)
  | met h => exact ⟨fun hs => hl.halted (hp hs), trivial⟩
  | notMet h =>
    cases h with
    | abort hh => exact hh
  | interrupted hi => exact hi
  | notInterrupted hi => exact hp.imp id fun h => absurd h (by simp [hi])
  | abort hf => exact .inl hf
  | proceed => exact hp
  | force => exact ⟨fun _ => .inr (hl.interrupted hp), trivial⟩
  | tearDown h => exact ⟨fun hs => hl.halted (hp.1 hs), h.excused hp.2⟩
  | @tearDownDone f r _ _ o h =>
    apply excused_onward (h.excused hp.2)
    intro _
    unfold afterTearDown
    split <;> exact fun hs => hl.halted (hp.1 hs)
  | enterRelease => exact ⟨hp, trivial⟩
  | release h => exact ⟨fun hs => hl.halted (hp.1 hs), h.excused hp.2⟩
  | released h => exact excused_onward (h.excused hp.2) fun _ hs => hl.halted (hp.1 hs)
  | void hv => exact hv.elim hp .inr
  | fail => exact hp
  | condemn => exact Memory.hasFailed_setFailed_self _ _
  | stayWarmdown | leaveWarmdown | warmdownWorked => exact hp
  | _ => trivial

end Pass
end LoadBench
