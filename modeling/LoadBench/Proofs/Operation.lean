import LoadBench.Proofs.Errand
import LoadBench.Proofs.Path

/-!
# Operations of all kinds

Everything that threads do to the shared state, side by side: the operations of the lifecycle,
waits, measurements, whole passes, the conductor, and whatever takes a single step. An operation
that is performed from inside a hook, a call of the workload or a sleep is one more operation, which
takes its steps while the other one waits.

All of them respect two things: a failure flag is never taken back, and what lives at a site changes
only inside the section of the site, which has room for one (`Operation.sectioned_of_yields`,
`Operation.kept_of_path`).
-/

namespace LoadBench
open Pool

inductive Action where
  | fail (c : Iteration)
  | signal (c : Iteration) (f : Signals → Signals)
  | gate (fixture : Nat) (s : Stage) (g : Gate)

def Action.apply (m : Memory) : Action → Memory
  | fail c => m.setFailed c
  | signal c f => m.signal c f
  | gate fixture s g => m.setGate fixture s g

inductive Operation where
  | acquire (a : Acquire)
  | turn (t : Turn)
  | release (a : Release)
  | idle (i : Idling)
  | pass (a : Pass)
  | wait (w : Wait)
  | arrive (a : Arrival)
  | measure (s : Measurement)
  | conduct (c : Conductor)
  | clear (c : Clear)
  | act (d : Action)

namespace Operation

inductive Point where
  | acquire (a : Acquire) (p : Acquire.Point)
  | turn (t : Turn) (p : Turn.Point)
  | release (a : Release) (p : Release.Point)
  | idle (i : Idling) (p : Idling.Point)
  | pass (a : Pass) (p : Pass.Point)
  | wait (w : Wait) (p : Wait.Point)
  | arrive (a : Arrival) (p : Arrival.Point)
  | measure (s : Measurement) (p : Measurement.Point)
  | conduct (c : Conductor) (p : Conductor.Point)
  | clear (c : Clear) (p : Clear.Point)
  | act (d : Action)

inductive Result where
  | nothing
  | fixture (f : Nat)
  | report (r : Report)
  | tally (r : Tally)
  deriving DecidableEq

def start : Operation → Point
  | acquire a => .acquire a .look
  | turn t => .turn t .enter
  | release a => .release a .look
  | idle i => .idle i i.start
  | pass a => .pass a .begin
  | wait w => .wait w w.start
  | arrive a => .arrive a .announce
  | measure s => .measure s .start
  | conduct c => .conduct c c.start
  | clear c => .clear c .enter
  | act d => .act d

def step (now : Nat) (m : Memory) : Point → Move Memory Point Result
  | .acquire a p => (a.step m p).andThen (.acquire a) fun o => .ended (o.map .fixture)
  | .turn t p => (t.step now m p).andThen (.turn t) fun o => .ended (o.map fun _ => .nothing)
  | .release a p => (a.step now m p).andThen (.release a) fun o => .ended (o.map fun _ => .nothing)
  | .idle i p => (i.step now m p).andThen (.idle i) fun o => .ended (o.map fun _ => .nothing)
  | .pass a p => (a.step now m p).andThen (.pass a) fun o => .ended (o.map .report)
  | .wait w p => (w.step now m p).andThen (.wait w) fun o => .ended (o.map fun _ => .nothing)
  | .arrive a p => (a.step now m p).andThen (.arrive a) fun o => .ended (o.map fun _ => .nothing)
  | .measure s p => (s.step now m p).andThen (.measure s) fun o => .ended (o.map .tally)
  | .conduct c p => (c.step now m p).andThen (.conduct c) fun o => .ended (o.map fun _ => .nothing)
  | .clear c p => (c.step m p).andThen (.clear c) fun o => .ended (o.map fun _ => .nothing)
  | .act d => .act (d.apply m) [] (.ended (.ok .nothing))

def company : Company Point Result where
  move _ now m p := step now m p
  others _ _ := False

def crowd (n : Nat) (operations : Nat → Operation) (m : Memory) : Pool Point Result :=
  gather n (fun i => (operations i).start) m

end Operation

/-! ### Sections -/

def Release.Point.isInside : Release.Point → Bool
  | .clearing _ p => p.isInside
  | _ => false

theorem Pass.isInside_release {r : Tally} {p : Release.Point} :
    Pass.Point.isInside (.release r p) = p.isInside := by
  cases p <;> rfl

/-- What a step respects that begins and ends inside these sections. -/
structure Sectioned (m m' : Memory) (before after : Nat → Bool) : Prop where
  failed : ∀ c : Iteration, m.hasFailed c = true → m'.hasFailed c = true
  entered : ∀ s : Site, (before s.id = true → m.isEntered s = true) →
    (m'.isEntered s).toNat + (before s.id).toNat = (m.isEntered s).toNat + (after s.id).toNat
  live? : ∀ s : Site, before s.id = false → m'.live? s = m.live? s

def within (site : Site) (b : Bool) (n : Nat) : Bool := decide (n = site.id) && b

namespace Sectioned
variable {m m' : Memory} {b b' : Nat → Bool}

theorem of_slots (hf : ∀ c : Iteration, m.hasFailed c = true → m'.hasFailed c = true)
    (hs : m'.slots = m.slots) :
    Sectioned m m' b b where
  failed := hf
  entered s _ := by
    rw [Memory.isEntered, Memory.isEntered, hs]
  live? s _ := by
    rw [Memory.live?, Memory.live?, hs]

theorem enter {site : Site} (he : m.isEntered site = false) :
    Sectioned m (m.setEntered site true) (within site false) (within site true) where
  failed _ hf := hf
  entered s _ := by
    rw [Memory.isEntered_setEntered]
    by_cases hs : s.id = site.id
    · have he : m.isEntered s = false := by rw [Memory.isEntered, hs]; exact he
      simp [within, hs, he]
    · simp [within, hs]
  live? s _ := Memory.live?_setEntered ..

theorem leave {site : Site} :
    Sectioned m (m.setEntered site false) (within site true) (within site false) where
  failed _ hf := hf
  entered s he := by
    rw [Memory.isEntered_setEntered]
    by_cases hs : s.id = site.id
    · simp [within, hs, he (by simp [within, hs])]
    · simp [within, hs]
  live? s _ := Memory.live?_setEntered ..

/-- What lives at a site is changed inside its section. -/
theorem change {site : Site} (hf : ∀ c : Iteration, m.hasFailed c = true → m'.hasFailed c = true)
    (he : ∀ s, m'.isEntered s = m.isEntered s) (hl : ∀ s : Site, s.id ≠ site.id →
      m'.live? s = m.live? s) :
    Sectioned m m' (within site true) (within site true) where
  failed := hf
  entered s _ := by rw [he]
  live? s hs := hl s (by simpa [within] using hs)

end Sectioned

section
variable {m m' : Memory}

theorem Acquire.Step.sectioned {a : Acquire} {p : Acquire.Point} {t : Stand Acquire.Point Nat}
    (h : a.Step m p m' t) :
    Sectioned m m' (within a.site p.isInside) (within a.site (t.isAt Acquire.Point.isInside)) := by
  cases h with
  | enter he => exact .enter he
  | leave => exact .leave
  | publish =>
    refine .change (fun _ hf => hf) (fun s => Memory.isEntered_publish ..) fun s hs => ?_
    rw [Memory.live?_publish, if_neg hs]
  | condemn => exact .of_slots (fun _ => Memory.hasFailed_setFailed_of _ _ _) rfl
  | _ => exact .of_slots (fun _ hf => hf) rfl

theorem Clear.Step.sectioned {c : Clear} {p : Clear.Point} {t : Stand Clear.Point Unit}
    (h : c.Step m p m' t) :
    Sectioned m m' (within c.site p.isInside) (within c.site (t.isAt Clear.Point.isInside)) := by
  cases h with
  | enter he => exact .enter he
  | leave => exact .leave
  | store =>
    refine .change (fun _ hf => hf) (fun s => Memory.isEntered_clear ..) fun s hs => ?_
    rw [Memory.live?_clear, if_neg hs]

theorem Release.Step.sectioned {a : Release} {p : Release.Point} {t : Stand Release.Point Unit}
    (h : a.Step m p m' t) :
    Sectioned m m' (within a.site p.isInside) (within a.site (t.isAt Release.Point.isInside)) := by
  cases h with
  | cleaning h | cleaned h | crashed h => exact .of_slots (fun _ => h.failed) (by cases h <;> rfl)
  | clearing h | cleared h => exact h.sectioned
  | _ => exact .of_slots (fun _ hf => hf) rfl

theorem Idling.memory_of_yields {i : Idling} {now : Nat} {p : Idling.Point}
    {t : Stand Idling.Point Unit} (h : (i.step now m p).Yields m m' t) : m' = m := by
  cases p with
  | waiting p =>
    obtain ⟨u, hu, -⟩ := Move.yields_andThen.mp h
    exact (Wait.yields_cases hu).1
  | checkFailed => exact h.1

theorem Pass.Step.sectioned {a : Pass} {p : Pass.Point} {t : Stand Pass.Point Report}
    (h : a.Step m p m' t) :
    Sectioned m m' (within a.site p.isInside) (within a.site (t.isAt Pass.Point.isInside)) := by
  have hf (c : Iteration) : m.hasFailed c = true → m'.hasFailed c = true := h.failed
  have outside {p : Pass.Point} {t : Stand Pass.Point Report} (hs : m'.slots = m.slots)
      (hp : p.isInside = false)
      (ht : t.isAt Pass.Point.isInside = false) :
      Sectioned m m' (within a.site p.isInside) (within a.site (t.isAt Pass.Point.isInside)) := by
    rw [hp, ht]
    exact .of_slots hf hs
  have apart {α : Type} {phase : Phase} {next : α → Pass.Point} {o : Outcome α}
      (hn : ∀ v, (next v).isInside = false) :
      (Pass.onward phase next o).isAt Pass.Point.isInside = false := by
    cases o with
    | ok v => exact hn v
    | failed e | crashed text => rfl
  cases h with
  | acquire h => exact h.sectioned
  | @acquired _ _ r h =>
    have hs := h.sectioned
    cases r <;> exact hs
  | release h =>
    rw [Pass.isInside_release, Stand.isAt_point, Pass.isInside_release]
    exact h.sectioned
  | @released _ _ _ o h =>
    have hs := h.sectioned
    rw [Pass.isInside_release]
    cases o <;> exact hs
  | setUp h | tearDown h => exact outside h.slots rfl rfl
  | setUpDone h =>
    refine outside h.slots rfl (apart fun _ => ?_)
    unfold Pass.afterSetUp
    split <;> rfl
  | tearDownDone h =>
    refine outside h.slots rfl (apart fun _ => ?_)
    unfold Pass.afterTearDown
    split <;> rfl
  | arrive h | depart h | met h | notMet h => exact outside (by cases h <;> rfl) rfl rfl
  | arrived h => exact outside (by cases h <;> rfl) rfl (apart fun _ => rfl)
  | measure h => exact outside (by cases h <;> rfl) rfl rfl
  | measured h => exact outside (by cases h <;> rfl) rfl (apart fun _ => rfl)
  | @noteStop f ops r =>
    refine outside rfl rfl ?_
    change (a.afterMeasured f ops r).isInside = false
    unfold Pass.afterMeasured
    split <;> rfl
  | _ => exact outside rfl rfl rfl

end

namespace Operation
variable {now n i : Nat} {m m' m₀ : Memory} {p : Point} {t : Stand Point Result}
  {w : Pool Point Result} {l : List (Stride Point)} {operations : Nat → Operation} {site : Site}

/-- The operation is inside the section of the sites with this number. -/
def Point.isInside (n : Nat) : Point → Bool
  | .acquire a p => within a.site p.isInside n
  | .release a p => within a.site p.isInside n
  | .pass a p => within a.site p.isInside n
  | .clear c p => within c.site p.isInside n
  | _ => false

theorem sectioned_part {σ α : Type} {u : Stand σ α} {embed : σ → Point} {f : α → Result}
    {q : σ → Bool} {b : Bool} (hq : ∀ n p, (embed p).isInside n = within site (q p) n)
    (hs : Sectioned m m' (within site b) (within site (u.isAt q))) :
    Sectioned m m' (within site b) fun n =>
      (u.andThen embed fun o => .ended (o.map f)).isAt (Point.isInside n) := by
  have hu (n : Nat) : (u.andThen embed fun o => .ended (o.map f)).isAt (Point.isInside n) =
      within site (u.isAt q) n := by
    cases u with
    | point p => exact hq n p
    | ended o => simp [within]
  simp only [hu]
  exact hs

theorem sectioned_outside {σ α : Type} {u : Stand σ α} {embed : σ → Point} {f : α → Result}
    (hq : ∀ n p, (embed p).isInside n = false) (hf : ∀ c : Iteration, m.hasFailed c = true →
      m'.hasFailed c = true)
    (hs : m'.slots = m.slots) :
    Sectioned m m' (fun _ => false) fun n =>
      (u.andThen embed fun o => .ended (o.map f)).isAt (Point.isInside n) := by
  have hu (n : Nat) :
      (u.andThen embed fun o => .ended (o.map f)).isAt (Point.isInside n) = false := by
    cases u with
    | point p => exact hq n p
    | ended o => rfl
  simp only [hu]
  exact .of_slots hf hs

theorem sectioned_of_yields (h : (step now m p).Yields m m' t) :
    Sectioned m m' (fun n => p.isInside n) (fun n => t.isAt (Point.isInside n)) := by
  cases p with
  | acquire a p =>
    obtain ⟨u, hu, rfl⟩ := Move.yields_andThen.mp h
    exact sectioned_part (fun _ _ => rfl) (Acquire.step_of_yields hu).sectioned
  | release a p =>
    obtain ⟨u, hu, rfl⟩ := Move.yields_andThen.mp h
    exact sectioned_part (fun _ _ => rfl) (Release.step_of_yields hu).sectioned
  | pass a p =>
    obtain ⟨u, hu, rfl⟩ := Move.yields_andThen.mp h
    exact sectioned_part (fun _ _ => rfl) (Pass.step_of_yields hu).sectioned
  | clear c p =>
    obtain ⟨u, hu, rfl⟩ := Move.yields_andThen.mp h
    exact sectioned_part (fun _ _ => rfl) (Clear.step_of_yields hu).sectioned
  | turn t p =>
    obtain ⟨u, hu, rfl⟩ := Move.yields_andThen.mp h
    have hu := Turn.step_of_yields hu
    exact sectioned_outside (fun _ _ => rfl) (fun _ => hu.failed) hu.slots
  | idle i p =>
    obtain ⟨u, hu, rfl⟩ := Move.yields_andThen.mp h
    obtain rfl := Idling.memory_of_yields hu
    exact sectioned_outside (fun _ _ => rfl) (fun _ hf => hf) rfl
  | wait w p =>
    obtain ⟨u, hu, rfl⟩ := Move.yields_andThen.mp h
    obtain ⟨rfl, -⟩ := Wait.yields_cases hu
    exact sectioned_outside (fun _ _ => rfl) (fun _ hf => hf) rfl
  | arrive a p =>
    obtain ⟨u, hu, rfl⟩ := Move.yields_andThen.mp h
    have hu := Arrival.step_of_yields hu
    exact sectioned_outside (fun _ _ => rfl) (fun c hf => (hu.hasFailed c).trans hf)
      (by cases hu <;> rfl)
  | measure s p =>
    obtain ⟨u, hu, rfl⟩ := Move.yields_andThen.mp h
    have hu := Measurement.step_of_yields hu
    exact sectioned_outside (fun _ _ => rfl) (fun c hf => (hu.hasFailed c).trans hf)
      (by cases hu <;> rfl)
  | conduct c p =>
    obtain ⟨u, hu, rfl⟩ := Move.yields_andThen.mp h
    have hu := Conductor.step_of_yields hu
    exact sectioned_outside (fun _ _ => rfl) (fun c hf => (hu.hasFailed c).trans hf)
      (by cases hu <;> rfl)
  | act d =>
    obtain ⟨rfl, rfl⟩ := h
    cases d with
    | fail c => exact .of_slots (fun _ => Memory.hasFailed_setFailed_of _ _ _) rfl
    | signal c f | gate f s g => exact .of_slots (fun _ hf => hf) rfl

/-! ### Along a path -/

variable {w' w₀ : Pool Point Result} {x : List (Stride Point)} {s : Strand Point Result} {b : Bool}

theorem failed_of_stepped {c : Iteration} (hs : Stepped company w x w')
    (hf : w.memory.hasFailed c = true) :
    w'.memory.hasFailed c = true := by
  cases hs with
  | others ho => exact ho.elim
  | step hi ha =>
    rcases ha.yields with ⟨hm, -⟩ | ⟨p, hp, hy⟩
    · exact hm ▸ hf
    · cases hp
      exact (sectioned_of_yields hy).failed c hf

theorem failed_of_path {c : Iteration} (hp : Path company w₀ l w)
    (hf : w₀.memory.hasFailed c = true) :
    w.memory.hasFailed c = true :=
  hp.induct (P := fun _ w => w.memory.hasFailed c = true) hf fun _ hf hs => failed_of_stepped hs hf

/-- The section of a site is taken as long as somebody is inside. -/
def Kept (site : Site) (w : Pool Point Result) : Prop :=
  Pool.Kept (w.memory.isEntered site) (fun t => t.isAt (Point.isInside site.id)) w.strands

theorem kept_of_stepped (hk : Kept site w) (hs : Stepped company w x w') : Kept site w' := by
  cases hs with
  | others ho => exact ho.elim
  | @step i now p b m es s hi ha =>
    rcases ha.yields with ⟨rfl, hst⟩ | ⟨p, hp, hy⟩
    · exact hk.still hi (by rw [hst])
    · cases hp
      have hsec := sectioned_of_yields hy
      exact hk.set hi (hsec.entered site fun hp => hk.taken_of hi hp)

theorem isInside_start {o : Operation} : o.start.isInside n = false := by
  cases o <;> simp [start, Point.isInside, within, Acquire.Point.isInside, Release.Point.isInside,
    Pass.Point.isInside, Clear.Point.isInside]

theorem kept_of_path (hk : Kept site w₀) (hp : Path company w₀ l w) : Kept site w :=
  hp.induct (P := fun _ w => Kept site w) hk fun _ hk hs => kept_of_stepped hk hs

theorem kept_crowd (h₀ : m₀.isEntered site = false) : Kept site (crowd n operations m₀) := by
  change Pool.Kept (m₀.isEntered site) _ _
  rw [h₀]
  refine .of_none fun s hs => ?_
  obtain ⟨i, hi⟩ := List.mem_iff_getElem?.mp hs
  cases getElem?_gather hi
  exact isInside_start

/-- While somebody is inside, nobody else changes what lives at the site. -/
theorem live?_of_inside {j : Nat} {es : List Event} {b' : Bool} {q : Point} (hk : Kept site w)
    (hi : w.strands[i]? = some ⟨.point p, b⟩) (hp : p.isInside site.id = true)
    (hj : w.strands[j]? = some ⟨.point q, b'⟩) (hij : i ≠ j)
    (ha : Strand.Advanced (step now w.memory) w.memory ⟨.point q, b'⟩ m es s) :
    m.live? site = w.memory.live? site := by
  rcases ha.yields with ⟨rfl, -⟩ | ⟨q', hq, hy⟩
  · rfl
  · cases hq
    refine (sectioned_of_yields hy).live? site ?_
    cases hq : q.isInside site.id with
    | false => rfl
    | true => exact absurd (hk.unique hi hp hj hq) hij

/-- What a site holds when somebody is about to leave its section: what is being
returned, or nothing. -/
inductive Point.Settles : Point → Site → Option Nat → Prop where
  | acquired {a : Acquire} {f : Nat} : Settles (.acquire a (.leave (.ok f))) a.site (some f)
  | released {a : Release} {r : Outcome Unit} :
      Settles (.release a (.clearing r .leave)) a.site none

def Point.operation : Point → Operation
  | .acquire a _ => .acquire a
  | .turn t _ => .turn t
  | .release a _ => .release a
  | .idle i _ => .idle i
  | .pass a _ => .pass a
  | .wait w _ => .wait w
  | .arrive a _ => .arrive a
  | .measure s _ => .measure s
  | .conduct c _ => .conduct c
  | .clear c _ => .clear c
  | .act d => .act d

theorem operation_of_yields {q : Point} (h : (step now m p).Yields m m' (.point q)) :
    q.operation = p.operation := by
  cases p with
  | act d => cases h.2
  | _ =>
    obtain ⟨u, hu, hq⟩ := Move.yields_andThen.mp h
    cases u <;> cases hq
    rfl

theorem live?_of_yields {q : Point} {x : Option Nat} (h : (step now m p).Yields m m' (.point q))
    (hq : q.Settles site x) : m'.live? site = x := by
  have hop := operation_of_yields h
  cases hq with
  | acquired =>
    cases p <;> cases hop
    obtain ⟨u, hu, hq⟩ := Move.yields_andThen.mp h
    cases Acquire.step_of_yields hu with
    | foundLate hl =>
      cases hq
      exact hl
    | publish =>
      cases hq
      rw [Memory.live?_publish, if_pos rfl]
    | @condemn x =>
      injection hq with hq
      injection hq with _ hq
      injection hq with hq
      exact absurd (congrArg Outcome.isOk hq) (by simp [Acquire.isOk_verdict])
    | _ => cases hq
  | released =>
    cases p <;> cases hop
    obtain ⟨u, hu, hq⟩ := Move.yields_andThen.mp h
    cases Release.step_of_yields hu with
    | clearing hc =>
      cases hc <;> cases hq
      rw [Release.clear, Memory.live?_clear, if_pos rfl]
    | _ => cases hq

theorem Point.Settles.isInside {x : Option Nat} (h : p.Settles site x) :
    p.isInside site.id = true := by
  cases h <;> simp [Point.isInside, within, Acquire.Point.isInside, Release.Point.isInside,
    Clear.Point.isInside]

theorem not_settles_start {o : Operation} {x : Option Nat} : ¬ o.start.Settles site x := by
  cases o <;> exact nofun

/-- What somebody in the section leaves behind stays as it is until the section is left. -/
theorem live?_of_settles {x : Option Nat} (h₀ : m₀.isEntered site = false)
    (hp : Path company (crowd n operations m₀) l w) (hi : w.strands[i]? = some ⟨.point p, b⟩)
    (hs : p.Settles site x) : w.memory.live? site = x := by
  refine hp.induct (P := fun _ w => ∀ p b, w.strands[i]? = some ⟨.point p, b⟩ → p.Settles site x →
    w.memory.live? site = x) ?_ ?_ p b hi hs
  · intro p b hi hs
    cases getElem?_gather hi
    exact absurd hs not_settles_start
  · intro l w x' w' hp ih hstep p b hi hs
    cases hstep with
    | others ho => exact ho.elim
    | @step j now q b' m es s' hj ha =>
      rw [List.getElem?_set] at hi
      by_cases hij : j = i
      · subst hij
        simp only [if_true, Option.ite_none_right_eq_some, Option.some.injEq] at hi
        obtain ⟨-, rfl⟩ := hi
        rcases ha.yields with ⟨rfl, hst⟩ | ⟨q', hq, hy⟩
        · cases hst
          exact ih _ _ hj hs
        · cases hq
          exact live?_of_yields hy hs
      · simp only [hij, if_false] at hi
        have hk : Kept site w := kept_of_path (kept_crowd h₀) hp
        rw [live?_of_inside hk hi hs.isInside hj (Ne.symm hij) ha]
        exact ih _ _ hi hs

/-! ### Out of a section -/

/-- How many points there are between an operation and the way out of the section that it is in. -/
def Point.depth : Point → Nat
  | .acquire _ p | .pass _ (.acquire p) => p.rank
  | .release _ (.clearing _ p) | .pass _ (.release _ (.clearing _ p)) | .clear _ p => p.rank
  | _ => 0

theorem depth_onward {a : Pass} {α : Type} {phase : Phase} {next : α → Pass.Point} {o : Outcome α}
    {q : Pass.Point} (hn : ∀ v, Point.depth (.pass a (next v)) = 0)
    (h : Pass.onward phase next o = .point q) :
    Point.depth (.pass a q) = 0 := by
  cases o with
  | ok v =>
    cases h
    exact hn v
  | failed e | crashed text =>
    cases h
    rfl

theorem depth_pos (hp : p.isInside n = true) : 0 < p.depth := by
  cases p with
  | acquire a p => cases p <;> simp [Point.depth, Acquire.Point.rank]
  | clear c p => cases p <;> simp [Point.depth, Clear.Point.rank]
  | release a p =>
    cases p with
    | clearing r p => cases p <;> simp [Point.depth, Clear.Point.rank]
    | _ => simp [Point.isInside, within, Release.Point.isInside] at hp
  | pass a p =>
    cases p with
    | acquire p => cases p <;> simp [Point.depth, Acquire.Point.rank]
    | release r p =>
      cases p with
      | clearing r p => cases p <;> simp [Point.depth, Clear.Point.rank]
      | _ => simp [Point.isInside, within, Pass.Point.isInside] at hp
    | _ => simp [Point.isInside, within, Pass.Point.isInside] at hp
  | _ => cases hp

theorem depth_lt {q : Point} (hp : p.isInside n = true)
    (h : (step now m p).Yields m m' (.point q)) :
    q.depth < p.depth := by
  have hpos := depth_pos hp
  cases p with
  | acquire a p =>
    obtain ⟨u, hu, hq⟩ := Move.yields_andThen.mp h
    cases u <;> cases hq
    exact (Acquire.step_of_yields hu).descends
  | clear c p =>
    obtain ⟨u, hu, hq⟩ := Move.yields_andThen.mp h
    cases u <;> cases hq
    exact (Clear.step_of_yields hu).descends
  | release a p =>
    obtain ⟨u, hu, hq⟩ := Move.yields_andThen.mp h
    cases u <;> cases hq
    cases Release.step_of_yields hu with
    | clearing hc => exact hc.descends
    | _ => simp [Point.isInside, within, Release.Point.isInside] at hp
  | pass a p =>
    obtain ⟨u, hu, hq⟩ := Move.yields_andThen.mp h
    generalize ht : u = t at hq
    cases t <;> cases hq
    cases Pass.step_of_yields hu with
    | acquire ha =>
      cases ht
      exact ha.descends
    | acquired => exact depth_onward (fun _ => rfl) ht ▸ hpos
    | release hr =>
      cases ht
      cases hr with
      | clearing hc => exact hc.descends
      | _ => simp [Point.isInside, within, Pass.Point.isInside] at hp
    | released => exact depth_onward (fun _ => rfl) ht ▸ hpos
    | _ => simp [Point.isInside, within, Pass.Point.isInside] at hp
  | _ => cases hp

theorem not_blocked_inside (hp : p.isInside n = true) : step now m p ≠ .blocked := by
  intro h
  cases p with
  | acquire a p =>
    obtain ⟨rfl, -⟩ := Acquire.of_blocked (Move.blocked_of_andThen h)
    simp [Point.isInside, within, Acquire.Point.isInside] at hp
  | clear c p =>
    obtain ⟨rfl, -⟩ := Clear.of_blocked (Move.blocked_of_andThen h)
    simp [Point.isInside, within, Clear.Point.isInside] at hp
  | release a p =>
    obtain ⟨⟨o, rfl⟩, -⟩ := Release.of_blocked (Move.blocked_of_andThen h)
    simp [Point.isInside, within, Release.Point.isInside, Clear.Point.isInside] at hp
  | pass a p =>
    have h := Move.blocked_of_andThen h
    cases p with
    | acquire p =>
      obtain ⟨rfl, -⟩ := Acquire.of_blocked (Move.blocked_of_andThen h)
      simp [Point.isInside, within, Pass.Point.isInside, Acquire.Point.isInside] at hp
    | release r p =>
      obtain ⟨⟨o, rfl⟩, -⟩ := Release.of_blocked (Move.blocked_of_andThen h)
      simp [Point.isInside, within, Pass.Point.isInside, Clear.Point.isInside] at hp
    | _ => simp [Point.isInside, within, Pass.Point.isInside] at hp
  | _ => cases hp

/-- The section of a site can always be left, and whoever is not inside stays
where it is meanwhile. -/
theorem exists_left (hk : Kept site w) (hi : w.strands[i]? = some s)
    (hs : s.stand.isAt (Point.isInside site.id) = false) :
    ∃ l w', Path company w l w' ∧ w'.strands[i]? = some s ∧ w'.memory.isEntered site = false := by
  -- the induction is on the ranks together, which a step of the one inside lowers
  induction hn : rank Point.depth w.strands using Nat.strongRecOn generalizing w with
  | ind n ih =>
    cases he : w.memory.isEntered site with
    | false => exact ⟨[], w, .start, hi, he⟩
    | true =>
      have hk' := hk
      rw [Kept, he] at hk'
      obtain ⟨j, ⟨t, b⟩, hj, ht⟩ := hk'.exists_holder
      cases t with
      | ended o => cases ht
      | point p =>
        have hb : step 0 w.memory p ≠ .blocked := not_blocked_inside ht
        obtain ⟨m, es, s', ha⟩ := Strand.exists_advance (s := ⟨.point p, b⟩) w.memory rfl hb 0
        have ha := Strand.advanced_of_advance ha
        have hlt : s'.rank Point.depth < Strand.rank Point.depth ⟨.point p, b⟩ :=
          ha.rank_lt fun p' m q hp hq => by
          cases hp
          exact depth_lt ht hq
        have hstep : Stepped company w [⟨j, p, es⟩] ⟨m, w.strands.set j s'⟩ := .step hj ha
        have hij : j ≠ i := by
          rintro rfl
          rw [hi] at hj
          cases hj
          exact absurd ht (by simpa using hs)
        obtain ⟨l, w', hp, hi', he'⟩ := ih _ (hn ▸ rank_set_lt hj hlt) (kept_of_stepped hk hstep)
          ((List.getElem?_set_ne hij).trans hi) rfl
        exact ⟨_, w', (Path.start.stepped hstep).trans hp, hi', he'⟩

end Operation
end LoadBench
