import LoadBench.Proofs.Excuse
import LoadBench.Proofs.Journey
import LoadBench.Proofs.Run

/-!
# Phases

The phases that a pass enters, whatever its hooks, its workload and the others do: those of its
route, one after the other, up to where it stops. How it ends tells in which phase it stopped and
which flags it leaves behind (`phases_of_pass`).

A part whose outcome is decided has a reason for it (`Outcome.Reasoned`), and so has a pass, in the
phase in which it is (`Pass.Accounts`). As no flag is ever lowered, a reason that was given once is
there for good.
-/

namespace LoadBench

namespace Memory

/-- Of the flags that tell why an iteration came to nothing none is lowered.
Nothing else is kept. -/
structure Upholds (c : Iteration) (m m' : Memory) : Prop where
  failed : m.hasFailed c = true → m'.hasFailed c = true
  interrupted : m.isInterrupted c = true → m'.isInterrupted c = true
  spoiled : (m.signalsOf c).spoiled = true → (m'.signalsOf c).spoiled = true

theorem Upholds.halted {c : Iteration} {m m' : Memory} (h : m.Upholds c m') (hm : m.Halted c) :
    m'.Halted c :=
  hm.imp h.failed h.interrupted

theorem Upholds.refl (c : Iteration) (m : Memory) : m.Upholds c m := ⟨id, id, id⟩

end Memory

/-! ### What is noted -/

def Note.entered? : Note → Option Phase
  | .transition _ _ target => some target
  | _ => none

def Event.entered? : Event → Option Phase
  | .noted n => n.entered?
  | _ => none

def Move.IsSilent {μ σ α : Type} : Move μ σ α → Prop
  | .act _ notes _ => ∀ n ∈ notes, n.entered? = none
  | .ask .. | .blocked => True

namespace Move.IsSilent
variable {μ σ τ α β : Type} {m : μ} {s t : Stand σ α} {v : Move μ σ α} {n : Note}

theorem nothing : (act m [] s).IsSilent := List.forall_mem_nil _

theorem single (h : n.entered? = none) : (act m [n] s).IsSilent := List.forall_mem_singleton.mpr h

theorem choice {c : Prop} [Decidable c] {v w : Move μ σ α} (hv : v.IsSilent) (hw : w.IsSilent) :
    (if c then v else w).IsSilent := by
  split
  · exact hv
  · exact hw

theorem andThen (h : v.IsSilent) (embed : σ → τ) (onward : Outcome α → Stand τ β) :
    (v.andThen embed onward).IsSilent := by
  cases v with
  | act => exact h
  | ask | blocked => trivial

end Move.IsSilent

section
variable {now : Nat} {m : Memory}

theorem Memory.entered?_failureNotes {c : Iteration} :
    ∀ n ∈ m.failureNotes c, n.entered? = none := by
  intro n hn
  unfold failureNotes at hn
  split at hn
  · cases hn
  · cases List.mem_singleton.mp hn
    rfl

/-- Marking the trial failing, and what is said of it. -/
theorem Move.IsSilent.condemning {σ α : Type} {c : Iteration} {m' : Memory} {notes : List Note}
    {s : Stand σ α} (h : ∀ n ∈ notes, n.entered? = none) :
    (act m' (m.failureNotes c ++ notes) s).IsSilent :=
  List.forall_mem_append.mpr ⟨Memory.entered?_failureNotes, h⟩

theorem Wait.silent {w : Wait} {p : Wait.Point} : (w.step now m p).IsSilent := by
  cases p with
  | doze => trivial
  | poll | checkFailed | checkInterrupted => exact .choice .nothing .nothing

theorem Arrival.silent {a : Arrival} {p : Arrival.Point} : (a.step now m p).IsSilent := by
  cases p with
  | announce => exact .nothing
  | waiting p => exact Wait.silent.andThen _ _

theorem Idling.silent {i : Idling} {p : Idling.Point} : (i.step now m p).IsSilent := by
  cases p with
  | waiting p => exact Wait.silent.andThen _ _
  | checkFailed => exact .nothing

theorem Turn.silent {t : Turn} {p : Turn.Point} : (t.step now m p).IsSilent := by
  cases p with
  | enter =>
    cases hg : (m.gate t.fixture t.stage).enter? with
    | some g => simpa only [step, hg] using .nothing
    | none => simpa only [step, hg] using .single rfl
  | queued p => exact Idling.silent.andThen _ _
  | checkFailed | checkReady => exact .choice .nothing .nothing
  | hook => trivial
  | condemn x =>
    apply Move.IsSilent.condemning
    cases x with
    | refused problem => exact List.forall_mem_singleton.mpr rfl
    | crashed text => exact List.forall_mem_nil _
  | commit => exact .single rfl
  | leave => exact .nothing

theorem Acquire.silent {a : Acquire} {p : Acquire.Point} : (a.step m p).IsSilent := by
  cases p with
  | look | recheck => cases hl : m.live? a.site <;> simpa only [step, hl] using .nothing
  | enter => exact .choice trivial .nothing
  | checkFailed => exact .choice .nothing (.single rfl)
  | construct | setUp => trivial
  | publish => exact .single rfl
  | condemn x =>
    apply Move.IsSilent.condemning
    cases x with
    | refused problem => exact List.forall_mem_singleton.mpr rfl
    | crashed text => exact List.forall_mem_nil _
  | leave => exact .nothing

theorem Clear.silent {c : Clear} {p : Clear.Point} : (c.step m p).IsSilent := by
  cases p with
  | enter => exact .choice trivial .nothing
  | store | leave => exact .nothing

theorem Release.silent {a : Release} {p : Release.Point} : (a.step now m p).IsSilent := by
  cases p with
  | look => cases hl : m.live? a.site <;> simpa only [step, hl] using .nothing
  | cleaning f p => exact Turn.silent.andThen _ _
  | checkFailed => exact .nothing
  | clearing r p => exact Clear.silent.andThen _ _

theorem Measurement.silent {s : Measurement} {p : Measurement.Point} :
    (s.step now m p).IsSilent := by
  cases p with
  | checkSpoiled | stop => exact .choice .nothing .nothing
  | work => trivial
  | start | beginBatch | endBatch | checkDone | widenMask => exact .nothing

end
/-! ### Parts whose outcome is decided -/

/-- A part fails for a reason of its own, of which the trial is failing, or because of a halt. -/
def Outcome.Reasoned {α : Type} (own : Failure → Prop) (m : Memory) (c : Iteration) :
    Outcome α → Prop
  | ok _ => True
  | failed e => e = .aborted ∧ m.Halted c ∨ own e ∧ m.hasFailed c = true
  | crashed _ => m.hasFailed c = true

/-- How a turn ends, once that is decided, whether or not it has left the gate. -/
def Turn.decided? : Stand Turn.Point Unit → Option (Outcome Unit)
  | .point (.leave r) | .ended r => some r
  | .point _ => none

def Acquire.decided? : Stand Acquire.Point Nat → Option (Outcome Unit)
  | .point (.leave r) | .ended r => some (r.map fun _ => ())
  | .point _ => none

def Release.decided? : Stand Release.Point Unit → Option (Outcome Unit)
  | .point (.cleaning _ p) => Turn.decided? (.point p)
  | .point (.clearing r _) | .ended r => some r
  | .point _ => none

section
variable {m m' : Memory} {r : Outcome Unit}

def Turn.Blames (t : Turn) (e : Failure) : Prop :=
  ∃ problem, e = .ofStage t.site.name t.stage problem

/-- Whenever a turn decides how it ends, it has its reason. -/
theorem Turn.Step.reasoned {t : Turn} {p : Turn.Point} {s : Stand Turn.Point Unit}
    (h : t.Step m p m' s) (hr : decided? s = some r) : decided? (.point p) = some r ∨
      r.Reasoned t.Blames m' t.iteration := by
  cases h with
  | giveUp hh =>
    cases hr
    exact .inr (.inl ⟨rfl, hh⟩)
  | foundFailed hf | abort hf =>
    cases hr
    exact .inr (.inl ⟨rfl, .inl hf⟩)
  | join | settled | commit =>
    cases hr
    exact .inr trivial
  | @condemn x =>
    cases hr
    cases x with
    | refused problem => exact .inr (.inr ⟨⟨problem, rfl⟩, Memory.hasFailed_setFailed_self _ _⟩)
    | crashed text => exact .inr (Memory.hasFailed_setFailed_self _ _)
  | leave => exact .inl hr
  | _ => cases hr

def Acquire.Blames (a : Acquire) (e : Failure) : Prop :=
  ∃ problem, e = .setUp a.site.name ⟨.trial, .setUp⟩ problem

theorem Acquire.Step.reasoned {a : Acquire} {p : Acquire.Point} {s : Stand Acquire.Point Nat}
    (h : a.Step m p m' s) (hr : decided? s = some r) : decided? (.point p) = some r ∨
      r.Reasoned a.Blames m' a.iteration := by
  cases h with
  | abort hf =>
    cases hr
    exact .inr (.inl ⟨rfl, .inl hf⟩)
  | found | foundLate | publish =>
    cases hr
    exact .inr trivial
  | @condemn x =>
    cases hr
    cases x with
    | refused problem => exact .inr (.inr ⟨⟨problem, rfl⟩, Memory.hasFailed_setFailed_self _ _⟩)
    | crashed text => exact .inr (Memory.hasFailed_setFailed_self _ _)
  | leave => exact .inl hr
  | _ => cases hr

def Release.Blames (a : Release) (e : Failure) : Prop :=
  ∃ problem, e = .tearDown a.site.name ⟨.trial, .tearDown⟩ problem

theorem Release.Step.reasoned {a : Release} {p : Release.Point} {s : Stand Release.Point Unit}
    (h : a.Step m p m' s) (hr : decided? s = some r) : decided? (.point p) = some r ∨
      r.Reasoned a.Blames m' a.iteration := by
  cases h with
  | found | vacant => cases hr
  | cleaning ht | cleaned ht | crashed ht => exact ht.reasoned hr
  | abort hf =>
    cases hr
    exact .inr (.inl ⟨rfl, .inl hf⟩)
  | proceed =>
    cases hr
    exact .inr trivial
  | clearing | cleared => exact .inl hr

end

/-! ### The route of a pass -/

namespace Pass

/-- The phases of a pass in the order in which it enters them. -/
def route (a : Pass) : List Phase :=
  [.init] ++ (if a.mode.hasWarmLoops then [.warmup] else []) ++ [.measuring, .warmdown] ++
    (if a.iteration.isLast then [.trialTeardown] else []) ++ [.done]

def entered (legs : List (Leg Point)) : List Phase :=
  legs.flatMap fun l => l.events.filterMap Event.entered?

/-- The phase entered last. A pass starts out in the first one. -/
def phaseAfter (legs : List (Leg Point)) : Phase := (entered legs).getLast?.getD .init

/-- What a pass leaves behind that has failed or crashed in a phase. -/
def Accounts {α : Type} (a : Pass) (m : Memory) (phase : Phase) : Outcome α → Prop
  | .ok _ => True
  | .failed (.subgroupWithoutRole n) =>
    phase = .init ∧ n = a.seat.subgroup ∧ m.hasFailed a.iteration = true
  | .failed (.setUp _ _ _) => phase = .init ∧ m.hasFailed a.iteration = true
  | .failed (.tearDown _ s _) =>
    (s = ⟨.iteration, .tearDown⟩ ∧ phase = .warmdown ∨ s = ⟨.trial, .tearDown⟩ ∧
      phase = .trialTeardown) ∧ m.hasFailed a.iteration = true
  | .failed .aborted =>
    (phase = .init ∨ phase = .warmdown ∨ phase = .trialTeardown) ∧ m.Halted a.iteration
  | .failed .interrupted =>
    phase = .done ∧ (m.isInterrupted a.iteration = true ∨ (m.signalsOf a.iteration).spoiled = true)
  | .failed (.missingParameter _) | .failed (.invalidParameter ..) => False
  | .crashed _ => m.hasFailed a.iteration = true

/-- The measured loop has returned what it measured, and was not spoiled. -/
def Unspoiled (legs : List (Leg Point)) : Prop :=
  ∀ l ∈ legs, ∀ f ops r, l.point = .noteStop f ops r → r.spoiled = false

/-- How far a pass has come, and what that says once it has ended. -/
structure Phased (a : Pass) (legs : List (Leg Point)) (m : Memory) (s : Strand Point Report) :
    Prop where
  entered : entered legs <+: a.route
  stopped : ∀ r, s.stand = .ended r → a.Accounts m (phaseAfter legs) r ∧
    ∃ l, legs.getLast? = some l ∧ l.point.phase = phaseAfter legs
  succeeded : ∀ v, s.stand = .ended (.ok v) → Pass.entered legs = a.route ∧ Unspoiled legs ∧
    ∃ l, legs.getLast? = some l ∧ l.after.isInterrupted a.iteration = false

variable {a : Pass} {m m' : Memory} {p : Point} {t : Stand Point Report} {phase : Phase}
  {legs : List (Leg Point)} {l : Leg Point}

def opening (a : Pass) : List Phase := .init :: if a.mode.hasWarmLoops then [.warmup] else []

def before (a : Pass) : Phase → List Phase
  | .init => []
  | .warmup => [.init]
  | .measuring => a.opening
  | .warmdown => a.opening ++ [.measuring]
  | .trialTeardown => a.opening ++ [.measuring, .warmdown]
  | .done =>
    a.opening ++ .measuring :: .warmdown :: if a.iteration.isLast then [.trialTeardown] else []

def through (a : Pass) (phase : Phase) : List Phase := a.before phase ++ [phase]

def Visits (a : Pass) : Phase → Prop
  | .warmup => a.mode.hasWarmLoops = true
  | .trialTeardown => a.iteration.isLast = true
  | _ => True

theorem through_done : a.through .done = a.route := by
  simp [through, before, opening, route]

theorem before_prefix : a.before phase <+: a.route := by
  rw [← through_done]
  cases phase <;> simp [through, before, opening]

theorem through_prefix (hv : a.Visits phase) : a.through phase <+: a.route := by
  rw [← through_done]
  cases phase with
  | init | measuring | warmdown | done => simp [through, before, opening]
  | warmup => simp [through, before, opening, show a.mode.hasWarmLoops = true from hv]
  | trialTeardown => simp [through, before, opening, show a.iteration.isLast = true from hv]

def Point.entering? : Point → Option Phase
  | .begin => some .init
  | .enterWarmup _ => some .warmup
  | .noteStart .. => some .measuring
  | .noteStop .. => some .warmdown
  | .enterRelease _ => some .trialTeardown
  | .finish .. => some .done
  | _ => none

def behind (a : Pass) (p : Point) : List Phase :=
  match p.entering? with
  | some phase => a.before phase
  | none => a.through p.phase

section
variable {now : Nat} {b : Bool} {es : List Event} {s : Strand Point Report} {q : Point}

theorem silent_of_entering (hp : p.entering? = none) : (a.step now m p).IsSilent := by
  cases p with
  | begin | enterWarmup | noteStart | noteStop | enterRelease | finish => cases hp
  | reject | condemn => exact Memory.entered?_failureNotes
  | acquire => exact Acquire.silent.andThen _ _
  | arrive | depart => exact Arrival.silent.andThen _ _
  | setUp | tearDown => exact Turn.silent.andThen _ _
  | measure => exact Measurement.silent.andThen _ _
  | release => exact Release.silent.andThen _ _
  | warmupWork | warmdownWork => trivial
  | checkFailed => exact .choice .nothing (.single rfl)
  | fail => exact .single rfl
  | warmupGate | enterWarmdown | warmdownGate | checkInterrupted | force => exact .nothing

variable (a now m) in
theorem step_of_entering (hp : p.entering? = some phase) :
    ∃ m' source t, a.step now m p = .act m' [a.enterNote source phase] t := by
  cases p with
  | finish source r =>
    cases hp
    by_cases hr : r.spoiled || m.isInterrupted a.iteration
    · exact ⟨m, source, .point (.fail .done .interrupted), if_pos hr⟩
    · exact ⟨m, source, .ended (.ok (r.report a.mode a.iteration)), if_neg hr⟩
  | begin | enterWarmup | noteStart | noteStop | enterRelease =>
    cases hp
    exact ⟨_, _, _, rfl⟩
  | _ => cases hp

/-- A step begins a call, or it is a transition and enters what its point says. -/
theorem entered_of_advanced (h : Strand.Advanced (a.step now m) m ⟨.point p, b⟩ m' es s) :
    (s = ⟨.point p, true⟩ ∧ m' = m ∧ es.filterMap Event.entered? = []) ∨
      (a.Step m p m' s.stand ∧ es.filterMap Event.entered? = p.entering?.toList) := by
  cases h with
  | call hp hv hc =>
    cases hp
    exact .inl ⟨rfl, rfl, rfl⟩
  | @act _ _ notes t hp hv =>
    cases hp
    refine .inr ⟨step_of_yields (by rw [hv]; exact ⟨rfl, rfl⟩), ?_⟩
    rw [List.filterMap_map]
    cases he : p.entering? with
    | some phase =>
      obtain ⟨m₁, source, t, ht⟩ := a.step_of_entering m now he
      cases hv.symm.trans ht
      rfl
    | none =>
      have hs : (a.step now m p).IsSilent := silent_of_entering he
      rw [hv] at hs
      exact List.filterMap_eq_nil_iff.mpr hs
  | reply hp hv hc hr =>
    cases hp
    refine .inr ⟨step_of_yields (by rw [hv]; exact ⟨rfl, _, hr, rfl⟩), ?_⟩
    cases he : p.entering? with
    | some phase =>
      obtain ⟨m₁, source, t, ht⟩ := a.step_of_entering m now he
      cases hv.symm.trans ht
    | none => rfl

/-- What a part leads to: what comes next, or an end in its phase. -/
theorem point_of_onward {α : Type} {next : α → Point} {o : Outcome α}
    (h : onward phase next o = .point q) :
    (∃ v, o = .ok v ∧ q = next v) ∨ q.phase = phase ∧ q.entering? = none := by
  cases o with
  | ok v =>
    cases h
    exact .inl ⟨v, rfl, rfl⟩
  | failed e | crashed text =>
    cases h
    exact .inr ⟨rfl, rfl⟩

theorem follows_within (hv : a.Visits p.phase) (hp : p.entering? = none)
    (hq : q.phase = p.phase ∧ q.entering? = none) :
    a.Visits q.phase ∧ a.behind q = a.behind p ++ p.entering?.toList := by
  simp only [behind, hp, hq.1, hq.2]
  exact ⟨hv, (List.append_nil _).symm⟩

/-- Every step goes on along the route. -/
theorem Step.follows (h : a.Step m p m' t) (hv : a.Visits p.phase) (hq : t = .point q) :
    a.Visits q.phase ∧ a.behind q = a.behind p ++ p.entering?.toList := by
  cases h with
  | acquired | arrived =>
    rcases point_of_onward hq with ⟨v, -, rfl⟩ | hq
    · exact follows_within hv rfl ⟨rfl, rfl⟩
    · exact follows_within hv rfl hq
  | @setUpDone f =>
    rcases point_of_onward hq with ⟨v, -, rfl⟩ | hq
    · unfold afterSetUp
      split
      · rename_i hw
        exact ⟨hw, rfl⟩
      · rename_i hw
        refine ⟨trivial, ?_⟩
        change a.opening = [.init]
        rw [opening, if_neg hw]
    · exact follows_within hv rfl hq
  | leaveWarmup =>
    cases hq
    have hw : a.mode.hasWarmLoops = true := hv
    refine ⟨trivial, ?_⟩
    change a.opening = [.init, .warmup]
    rw [opening, if_pos hw]
  | measured =>
    rcases point_of_onward hq with ⟨v, -, rfl⟩ | hq
    · exact ⟨trivial, (List.append_nil _).symm⟩
    · exact follows_within hv rfl hq
  | @noteStop f ops r =>
    cases hq
    unfold afterMeasured
    split <;> exact ⟨trivial, rfl⟩
  | @tearDownDone f r =>
    rcases point_of_onward hq with ⟨v, -, rfl⟩ | hq
    · unfold afterTearDown
      split
      · rename_i hl
        refine ⟨hl, ?_⟩
        simp [behind, Point.entering?, Point.phase, through, before]
      · rename_i hl
        refine ⟨trivial, ?_⟩
        simp [behind, Point.entering?, Point.phase, through, before, hl]
    · exact follows_within hv rfl hq
  | released =>
    rcases point_of_onward hq with ⟨v, -, rfl⟩ | hq
    · have hl : a.iteration.isLast = true := hv
      refine ⟨trivial, ?_⟩
      simp [behind, Point.entering?, Point.phase, through, before, hl]
    · exact follows_within hv rfl hq
  | enrol | misplaced | noteStart | void =>
    cases hq
    exact ⟨trivial, rfl⟩
  | enterWarmup | enterRelease =>
    cases hq
    exact ⟨hv, rfl⟩
  | finish | fail | condemn => cases hq
  | _ =>
    cases hq
    exact follows_within hv rfl ⟨rfl, rfl⟩

/-! ### Reasons -/

theorem Step.upholds (h : a.Step m p m' t) : m.Upholds a.iteration m' where
  failed := h.failed
  interrupted hi := h.attended.interrupted.trans hi
  spoiled hs := h.attended.spoiled.trans hs

theorem Accounts.mono {α : Type} {o : Outcome α} (h : a.Accounts m phase o)
    (hu : m.Upholds a.iteration m') :
    a.Accounts m' phase o := by
  cases o with
  | ok v => trivial
  | crashed text => exact hu.failed h
  | failed e =>
    cases e with
    | setUp | tearDown => exact ⟨h.1, hu.failed h.2⟩
    | aborted => exact ⟨h.1, hu.halted h.2⟩
    | interrupted => exact ⟨h.1, h.2.imp hu.interrupted hu.spoiled⟩
    | subgroupWithoutRole => exact ⟨h.1, h.2.1, hu.failed h.2.2⟩
    | missingParameter | invalidParameter => exact h

theorem accounts_of_reasoned {own : Failure → Prop} {r : Outcome Unit}
    (h : r.Reasoned own m a.iteration) (hp : phase = .init ∨ phase = .warmdown ∨
      phase = .trialTeardown)
    (hown : ∀ e, own e → m.hasFailed a.iteration = true →
      a.Accounts m phase (.failed e : Outcome Unit)) :
    a.Accounts m phase r := by
  cases r with
  | ok v => trivial
  | crashed text => exact h
  | failed e =>
    rcases h with ⟨rfl, hh⟩ | ⟨he, hf⟩
    · exact ⟨hp, hh⟩
    · exact hown e he hf

/-- The end that a pass is bound for and the phase in which it comes to it, where that is decided
already. An aborted rendezvous may still be left for the teardown. -/
def bound? : Stand Point Report → Option (Phase × Outcome Unit)
  | .point (.acquire p) => (Acquire.decided? (.point p)).map (.init, ·)
  | .point (.setUp _ p) => (Turn.decided? (.point p)).map (.init, ·)
  | .point (.checkInterrupted ..) => some (.warmdown, .failed .aborted)
  | .point (.tearDown _ _ p) => (Turn.decided? (.point p)).map (.warmdown, ·)
  | .point (.release _ p) => (Release.decided? (.point p)).map (.trialTeardown, ·)
  | .point (.fail phase e) => some (phase, .failed e)
  | _ => none

variable {r : Outcome Unit} {f : Nat}

theorem accounts_acquire (h : r.Reasoned a.acquisition.Blames m a.iteration) :
    a.Accounts m .init r := by
  apply accounts_of_reasoned h (.inl rfl)
  rintro e ⟨problem, rfl⟩ hf
  exact ⟨rfl, hf⟩

theorem accounts_setUp (h : r.Reasoned (a.turn f ⟨.iteration, .setUp⟩).Blames m a.iteration) :
    a.Accounts m .init r := by
  apply accounts_of_reasoned h (.inl rfl)
  rintro e ⟨problem, rfl⟩ hf
  exact ⟨rfl, hf⟩

theorem accounts_tearDown (h : r.Reasoned (a.turn f ⟨.iteration, .tearDown⟩).Blames m a.iteration) :
    a.Accounts m .warmdown r := by
  apply accounts_of_reasoned h (.inr (.inl rfl))
  rintro e ⟨problem, rfl⟩ hf
  exact ⟨.inl ⟨rfl, rfl⟩, hf⟩

theorem accounts_release (h : r.Reasoned a.giveBack.Blames m a.iteration) :
    a.Accounts m .trialTeardown r := by
  apply accounts_of_reasoned h (.inr (.inr rfl))
  rintro e ⟨problem, rfl⟩ hf
  exact ⟨.inr ⟨rfl, rfl⟩, hf⟩
end

theorem bound?_onward {α : Type} {phase' : Phase} {next : α → Point} {o : Outcome α}
    {r : Outcome Unit} (hn : ∀ v, bound? (.point (next v)) = none)
    (h : bound? (onward phase next o) = some (phase', r)) :
    phase' = phase ∧ ∃ e, o = .failed e ∧ r = .failed e := by
  cases o with
  | ok v => cases (hn v).symm.trans h
  | failed e =>
    cases h
    exact ⟨rfl, e, rfl, rfl⟩
  | crashed text => cases h

/-- Every step that decides how a pass ends has its reason. -/
theorem Step.answerable (h : a.Step m p m' t) (hs : ∀ source r, p = .finish source r →
    r.spoiled = true →
      (m.signalsOf a.iteration).spoiled = true)
    (hp : ∀ phase r, bound? (.point p) = some (phase, r) → a.Accounts m phase r) :
    ∀ phase r, bound? t = some (phase, r) → a.Accounts m' phase r := by
  intro phase r ht
  have hu := h.upholds
  have carry (hr : bound? (.point p) = some (phase, r) ∨ a.Accounts m' phase r) :
      a.Accounts m' phase r :=
    hr.elim (fun h => (hp _ _ h).mono hu) id
  cases h with
  | reject =>
    cases ht
    exact ⟨rfl, rfl, Memory.hasFailed_setFailed_self _ _⟩
  | acquire h =>
    obtain ⟨r, hr, hpr⟩ := Option.map_eq_some_iff.mp ht
    cases hpr
    exact carry ((h.reasoned hr).imp (fun hd => by simp [bound?, hd]) accounts_acquire)
  | acquired h =>
    obtain ⟨rfl, e, rfl, rfl⟩ := bound?_onward (fun _ => rfl) ht
    exact carry ((h.reasoned (r := .failed e) rfl).imp
      (fun hd => by simp [bound?, hd]) accounts_acquire)
  | arrived h =>
    obtain ⟨rfl, e, rfl, rfl⟩ := bound?_onward (fun _ => rfl) ht
    cases h with
    | abort hh => exact ⟨.inl rfl, hh⟩
  | setUp h =>
    obtain ⟨r, hr, hpr⟩ := Option.map_eq_some_iff.mp ht
    cases hpr
    exact carry ((h.reasoned hr).imp (fun hd => by simp [bound?, hd]) accounts_setUp)
  | @setUpDone f _ _ _ h =>
    have hn : bound? (.point (a.afterSetUp f)) = none := by
      unfold afterSetUp
      split <;> rfl
    obtain ⟨rfl, e, rfl, rfl⟩ := bound?_onward (fun _ => hn) ht
    exact carry ((h.reasoned rfl).imp (fun hd => by simp [bound?, hd]) accounts_setUp)
  | measured h =>
    obtain ⟨rfl, e, rfl, rfl⟩ := bound?_onward (fun _ => rfl) ht
    cases h
  | @noteStop f ops r =>
    have hn : bound? (.point (a.afterMeasured f ops r)) = none := by
      unfold afterMeasured
      split <;> rfl
    cases hn.symm.trans ht
  | notMet h =>
    cases ht
    cases h with
    | abort hh => exact ⟨.inr (.inl rfl), hh⟩
  | notInterrupted =>
    cases ht
    exact carry (.inl rfl)
  | abort hf =>
    cases ht
    exact ⟨.inr (.inl rfl), .inl hf⟩
  | tearDown h =>
    obtain ⟨r, hr, hpr⟩ := Option.map_eq_some_iff.mp ht
    cases hpr
    exact carry ((h.reasoned hr).imp (fun hd => by simp [bound?, hd]) accounts_tearDown)
  | @tearDownDone f r _ _ _ h =>
    have hn : bound? (.point (a.afterTearDown r)) = none := by
      unfold afterTearDown
      split <;> rfl
    obtain ⟨rfl, e, rfl, rfl⟩ := bound?_onward (fun _ => hn) ht
    exact carry ((h.reasoned rfl).imp (fun hd => by simp [bound?, hd]) accounts_tearDown)
  | release h =>
    obtain ⟨r, hr, hpr⟩ := Option.map_eq_some_iff.mp ht
    cases hpr
    exact carry ((h.reasoned hr).imp (fun hd => by simp [bound?, hd]) accounts_release)
  | released h =>
    obtain ⟨rfl, e, rfl, rfl⟩ := bound?_onward (fun _ => rfl) ht
    exact carry ((h.reasoned rfl).imp (fun hd => by simp [bound?, hd]) accounts_release)
  | void hv =>
    cases ht
    exact ⟨rfl, hv.elim (fun hr => .inr (hs _ _ rfl hr)) .inl⟩
  | _ => cases ht

/-! ### The measurement -/

/-- Whether the measurement counts as spoiled so far, where it matters. -/
def spoilt? : Stand Point Report → Option Bool
  | .point (.measure _ _ (.stop _ b)) => some b
  | .point (.measure _ _ (.widenMask _ r)) | .point (.noteStop _ _ r)
  | .point (.enterWarmdown _ _ r) | .point (.warmdownGate _ _ r) | .point (.warmdownWork _ _ r)
  | .point (.depart _ r _) | .point (.checkInterrupted _ r) | .point (.checkFailed _ r)
  | .point (.force _ r) | .point (.tearDown _ r _) | .point (.enterRelease r)
  | .point (.release r _) | .point (.finish _ r) => some r.spoiled
  | .point (.fail ..) | .point (.condemn ..) | .ended (.failed _) | .ended (.crashed _) => none
  | _ => some false

theorem spoilt?_onward {α : Type} {next : α → Point} {o : Outcome α} {b c : Bool}
    (hn : ∀ v, o = .ok v → spoilt? (.point (next v)) = some c)
    (h : spoilt? (onward phase next o) = some b) :
    c = b := by
  cases o with
  | ok v => exact Option.some.inj ((hn v rfl).symm.trans h)
  | failed e | crashed text => cases h

/-- A measurement is spoiled only where the signal was found, and stays what it is. -/
theorem Step.spoilt {b : Bool} (h : a.Step m p m' t) (ht : spoilt? t = some b) :
    spoilt? (.point p) = some b ∨ b = true ∧ (m.signalsOf a.iteration).spoiled = true := by
  cases h with
  | enrol | misplaced | acquire | arrive | setUp | enterWarmup | stayWarmup | leaveWarmup
  | warmupWorked | noteStart =>
    exact .inl ht
  | reject | warmupCrashed | warmdownCrashed | notInterrupted | abort | void | fail
  | condemn => cases ht
  | acquired | arrived => exact .inl (congrArg some (spoilt?_onward (fun _ _ => rfl) ht))
  | @setUpDone f =>
    refine .inl (congrArg some (spoilt?_onward (c := false) (fun v _ => ?_) ht))
    unfold afterSetUp
    split <;> rfl
  | measure h =>
    cases h with
    | spoiled hs =>
      cases ht
      exact .inr ⟨rfl, hs⟩
    | stopSampling hr =>
      cases hr
      exact .inl ht
    | _ => exact .inl ht
  | measured h =>
    cases h with
    | crash => cases ht
    | stop hr =>
      cases hr
      exact .inl ht
    | widenMask => exact .inl ht
  | @noteStop f ops r =>
    have hn : spoilt? (.point (a.afterMeasured f ops r)) = some r.spoiled := by
      unfold afterMeasured
      split <;> rfl
    exact .inl (hn.symm.trans ht)
  | @tearDownDone f r =>
    refine .inl (congrArg some (spoilt?_onward (c := r.spoiled) (fun v _ => ?_) ht))
    unfold afterTearDown
    split <;> rfl
  | @released r => exact .inl (congrArg some (spoilt?_onward (c := r.spoiled) (fun _ _ => rfl) ht))
  | finish hr =>
    cases ht
    exact .inl (congrArg some hr)
  | _ => exact .inl ht

/-! ### Along a journey -/

/-- What is known of a pass at a point. -/
structure Underway (a : Pass) (legs : List (Leg Point)) (m : Memory) (p : Point) : Prop where
  entered : Pass.entered legs = a.behind p
  visits : a.Visits p.phase
  accounts : ∀ phase r, bound? (.point p) = some (phase, r) → a.Accounts m phase r
  spoiled : spoilt? (.point p) = some true → (m.signalsOf a.iteration).spoiled = true
  unspoiled : spoilt? (.point p) = some false → Unspoiled legs

theorem entered_append :
    entered (legs ++ [l]) = entered legs ++ l.events.filterMap Event.entered? := by
  simp [entered]

theorem Unspoiled.append (h : Unspoiled legs) (hl : spoilt? (.point l.point) = some false) :
    Unspoiled (legs ++ [l]) := by
  intro l' hl' f ops r hp
  rcases List.mem_append.mp hl' with hl' | hl'
  · exact h l' hl' f ops r hp
  · cases List.mem_singleton.mp hl'
    rw [hp] at hl
    exact Option.some.inj hl

namespace Underway

theorem start : a.Underway [] m .begin :=
  ⟨rfl, trivial, nofun, nofun, fun _ => List.forall_mem_nil _⟩

theorem mono (h : a.Underway legs m p) (hu : m.Upholds a.iteration m') : a.Underway legs m' p where
  entered := h.entered
  visits := h.visits
  accounts phase r hr := (h.accounts phase r hr).mono hu
  spoiled hs := hu.spoiled (h.spoiled hs)
  unspoiled := h.unspoiled

theorem call (h : a.Underway legs m l.point) (he : l.events.filterMap Event.entered? = []) :
    a.Underway (legs ++ [l]) m l.point where
  entered := by rw [entered_append, he, List.append_nil, h.entered]
  visits := h.visits
  accounts := h.accounts
  spoiled := h.spoiled
  unspoiled hs := (h.unspoiled hs).append hs

theorem next {q : Point} (h : a.Underway legs m l.point) (hs : a.Step m l.point m' (.point q))
    (he : l.events.filterMap Event.entered? = l.point.entering?.toList) :
    a.Underway (legs ++ [l]) m' q where
  entered := by rw [entered_append, he, h.entered, (hs.follows h.visits rfl).2]
  visits := (hs.follows h.visits rfl).1
  accounts :=
    hs.answerable (fun _ _ hp hr => h.spoiled (by rw [hp]; exact congrArg some hr)) h.accounts
  spoiled hq := hs.upholds.spoiled ((hs.spoilt hq).elim h.spoiled And.right)
  unspoiled hq :=
    have hp := (hs.spoilt hq).resolve_right nofun
    (h.unspoiled hp).append hp

end Underway

theorem phaseAfter_of_entered {ps : List Phase} (h : entered legs = ps ++ [phase]) :
    phaseAfter legs = phase := by
  simp [phaseAfter, h]

/-- The points where a pass can end, and how it ends there. -/
theorem Step.ended_cases {o : Outcome Report} (h : a.Step m p m' t) (ht : t = .ended o) :
    (∃ source r v, p = .finish source r ∧ o = .ok v ∧ r.spoiled = false ∧
      m'.isInterrupted a.iteration = false) ∨
      (∃ phase e, p = .fail phase e ∧ o = .failed e ∧ m' = m) ∨
        ∃ phase text, p = .condemn phase text ∧ o = .crashed text ∧
          m'.hasFailed a.iteration = true := by
  cases h with
  | finish hr hi =>
    cases ht
    exact .inl ⟨_, _, _, rfl, rfl, hr, hi⟩
  | fail =>
    cases ht
    exact .inr (.inl ⟨_, _, rfl, rfl, rfl⟩)
  | condemn =>
    cases ht
    exact .inr (.inr ⟨_, _, rfl, rfl, Memory.hasFailed_setFailed_self _ _⟩)
  | @acquired _ _ r | @arrived _ _ _ r | @setUpDone _ _ _ r | @measured _ _ _ _ r
  | @tearDownDone _ _ _ _ r | @released _ _ _ r => cases r <;> cases ht
  | _ => cases ht

theorem Underway.last {now : Nat} {es : List Event} {o : Outcome Report} {b : Bool}
    (h : a.Underway legs m p) (hs : a.Step m p m' (.ended o))
    (he : es.filterMap Event.entered? = p.entering?.toList) :
    a.Phased (legs ++ [⟨now, m, p, es, m'⟩]) m' ⟨.ended o, b⟩ := by
  have hlast : (legs ++ [(⟨now, m, p, es, m'⟩ : Leg Point)]).getLast? = some ⟨now, m, p, es, m'⟩ :=
    List.getLast?_concat
  have hen : Pass.entered (legs ++ [⟨now, m, p, es, m'⟩]) = a.behind p ++ p.entering?.toList := by
    rw [entered_append, he, h.entered]
  rcases hs.ended_cases rfl with
    ⟨source, r, v, rfl, rfl, hr, hi⟩ | ⟨phase, e, rfl, rfl, rfl⟩ | ⟨phase, text, rfl, rfl, hf⟩
  · have hen : Pass.entered _ = a.before .done ++ [.done] := hen
    have hroute := hen.trans through_done
    have hp : spoilt? (.point (.finish source r)) = some false := congrArg some hr
    refine ⟨hroute ▸ List.prefix_rfl, fun o ho => ?_, fun v hv => ⟨hroute, ?_, _, hlast, hi⟩⟩
    · cases ho
      exact ⟨trivial, _, hlast, (phaseAfter_of_entered hen).symm⟩
    · exact (h.unspoiled hp).append hp
  · have hen : Pass.entered _ = a.through phase := hen.trans (List.append_nil _)
    refine ⟨hen ▸ through_prefix h.visits, fun o ho => ?_, nofun⟩
    cases ho
    rw [phaseAfter_of_entered hen]
    refine ⟨?_, _, hlast, rfl⟩
    have hacc := h.accounts phase (.failed e) rfl
    cases e <;> exact hacc
  · have hen : Pass.entered _ = a.through phase := hen.trans (List.append_nil _)
    refine ⟨hen ▸ through_prefix h.visits, fun o ho => ?_, nofun⟩
    cases ho
    rw [phaseAfter_of_entered hen]
    exact ⟨hf, _, hlast, rfl⟩

theorem Phased.mono {s : Strand Point Report} (h : a.Phased legs m s)
    (hu : m.Upholds a.iteration m') :
    a.Phased legs m' s :=
  ⟨h.entered, fun r hr => ⟨(h.stopped r hr).1.mono hu, (h.stopped r hr).2⟩, h.succeeded⟩

theorem Underway.phased {b : Bool} (h : a.Underway legs m p) : a.Phased legs m ⟨.point p, b⟩ := by
  refine ⟨?_, nofun, nofun⟩
  rw [h.entered]
  unfold behind
  split
  · exact before_prefix
  · exact through_prefix h.visits

end Pass

/-- Whatever is called and whatever others do meanwhile, as long as nobody lowers a flag: a
pass enters the phases of its route in their order, and how it ends tells where it stopped and
which flags are up. It has a result only if the measurement was not spoiled and it was not
interrupted at its end. -/
theorem phases_of_pass {a : Pass} {m₀ m : Memory} {legs : List (Leg Pass.Point)}
    {s : Strand Pass.Point Report}
    (hj : Journey a.step (Memory.Upholds a.iteration) m₀ (.fresh .begin) legs m s) :
    a.Phased legs m s := by
  -- where it has not ended, more is known
  suffices h : a.Phased legs m s ∧ ∀ p, s.stand = .point p → a.Underway legs m p from h.1
  induction hj with
  | start =>
    refine ⟨Pass.Underway.start.phased, ?_⟩
    rintro p hp
    cases hp
    exact .start
  | @step legs now m m' p b es s hj ha ih =>
    have hp := ih.2 p rfl
    rcases Pass.entered_of_advanced ha with ⟨rfl, rfl, he⟩ | ⟨hs, he⟩
    · have hq := hp.call (l := ⟨now, m', p, es, m'⟩) he
      refine ⟨hq.phased, ?_⟩
      rintro q hq'
      cases hq'
      exact hq
    · obtain ⟨t, c⟩ := s
      cases t with
      | point q =>
        have hq := hp.next (l := ⟨now, m, p, es, m'⟩) hs he
        refine ⟨hq.phased, ?_⟩
        rintro q' hq'
        cases hq'
        exact hq
      | ended o => exact ⟨hp.last hs he, nofun⟩
  | others hj ho ih => exact ⟨ih.1.mono ho, fun p hp => (ih.2 p hp).mono ho⟩

/-- The other thread of a duet does not come to the teardown, and while this one waits for it the
iteration is interrupted: it goes all the way, without a result. -/
theorem phases_of_pass_interrupted :
    let a : Pass := ⟨Execution.duet.iteration 0 0, Execution.duet.site,
    ⟨0, ⟨2, by decide, by decide⟩, 0⟩, .throughput⟩
    let interrupt (m : Memory) := m.signal a.iteration Signals.interrupt
    let m₀ := ({} : Memory).signal a.iteration fun s =>
      Rendezvous.setUp.arrive s.freeWarmup.close.freeWarmdown
    let gone := Journey.travel a.step (Journey.stepsWith 74 45 interrupt) m₀ (.fresh .begin)
    a.Phased gone.1 gone.2.1 gone.2.2 ∧ gone.2.2.outcome? = some (.failed .interrupted) ∧
      Pass.entered gone.1 = [.init, .warmup, .measuring, .warmdown, .trialTeardown, .done] ∧
        gone.2.1.hasFailed a.iteration = false := by
  intro a interrupt m₀ gone
  have hup : ∀ m : Memory, m.Upholds a.iteration (interrupt m) := by
    intro m
    have hs : (interrupt m).signalsOf a.iteration = (m.signalsOf a.iteration).interrupt :=
      Memory.signalsOf_signal_self _ _ _
    exact ⟨id, fun _ => congrArg Signals.interrupted hs,
      fun h => (congrArg Signals.spoiled hs).trans h⟩
  have hsteps : ∀ x ∈ Journey.stepsWith 74 45 interrupt, ∀ m : Memory,
      m.Upholds a.iteration (x.2.2 m) := by
    intro x hx m
    obtain ⟨i, -, rfl⟩ := List.mem_map.mp hx
    by_cases hi : i = 45
    · simpa [hi] using hup m
    · simpa [hi] using Memory.Upholds.refl _ m
  exact ⟨phases_of_pass
    (Journey.travel_journey hsteps m₀ _), by decide +kernel, by decide +kernel, by decide +kernel⟩

end LoadBench
