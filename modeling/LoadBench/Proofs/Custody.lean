import LoadBench.Proofs.FullLoad

/-!
# Who holds what

The members of a group exclude each other by locks: the section of their site and the gates of
their fixture. Neither lock remembers its owner; who holds one is a fact about program points.
`Pass.Deed` says what the step of a member changes of all that the members of a group see in
common, and `Exclusive` that no lock has two owners.
-/

namespace LoadBench

/-- What the members of a group see in common of one fixture, its site and their trial. -/
structure View where
  failed : Bool
  interrupted : Bool
  live : Option Nat
  entered : Bool
  published : Nat
  fixture : Fixture

namespace View

def setGate (v : View) (s : Stage) (g : Gate) : View :=
  { v with fixture := { v.fixture with gates := v.fixture.gates.set s g } }

def setReady (v : View) (s : Stage) (b : Bool) : View :=
  { v with fixture := { v.fixture with ready := v.fixture.ready.set s.level b } }

/-- The level of a stage stands where the stage would bring it. -/
def Settled (v : View) (s : Stage) : Prop := v.fixture.isReady s = s.isSetUp

theorem settled_setReady (v : View) (s : Stage) : (v.setReady s s.isSetUp).Settled s :=
  Levels.get_set_self _ _ _

theorem settled_setReady_ne (v : View) {s r : Stage} (b : Bool) (h : s.level ≠ r.level) :
    (v.setReady r b).Settled s ↔ v.Settled s := by
  unfold Settled Fixture.isReady setReady
  rw [Levels.get_set_ne _ _ h]

end View

namespace Memory

def view (m : Memory) (c : Iteration) (site : Site) (f : Nat) : View :=
  ⟨m.hasFailed c, m.isInterrupted c, m.live? site, m.isEntered site, m.published, m.fixture f⟩

variable {c : Iteration} {site : Site} {f : Nat}

theorem view_setFailed (m : Memory) :
    (m.setFailed c).view c site f = { m.view c site f with failed := true } := by
  unfold view
  rw [hasFailed_setFailed_self]
  rfl

theorem view_signal (m : Memory) {g : Signals → Signals}
    (hg : (m.signal c g).isInterrupted c = m.isInterrupted c) :
    (m.signal c g).view c site f = m.view c site f := by
  unfold view
  rw [hg]
  rfl

theorem view_setGate (m : Memory) (s : Stage) (g : Gate) :
    (m.setGate f s g).view c site f = (m.view c site f).setGate s g := by
  simp only [view, View.setGate, fixture, setGate, Table.get_modify_self]
  rfl

theorem view_setReady (m : Memory) (s : Stage) (b : Bool) :
    (m.setReady f s b).view c site f = (m.view c site f).setReady s b := by
  simp only [view, View.setReady, fixture, setReady, Table.get_modify_self]
  rfl

theorem view_setEntered (m : Memory) (b : Bool) :
    (m.setEntered site b).view c site f = { m.view c site f with entered := b } := by
  simp only [view, live?, isEntered, setEntered, Table.get_modify_self]
  rfl

theorem view_clear (m : Memory) :
    (m.clear site).view c site f = { m.view c site f with live := none } := by
  simp only [view, live?, isEntered, clear, Table.get_modify_self]
  rfl

theorem view_publish (m : Memory) (value : Nat) (hf : m.published = f) :
    (m.publish site value).view c site f =
      { m.view c site f with live := some f, published := f + 1, fixture := .fresh value } := by
  subst hf
  simp only [view, live?, isEntered, fixture, publish, Table.get_modify_self, Table.get_put_self]
  rfl

end Memory

def Stand.isAt {σ α : Type} (t : Stand σ α) (q : σ → Bool) : Bool :=
  match t with
  | .point p => q p
  | .ended _ => false

@[simp] theorem Stand.isAt_point {σ α : Type} (p : σ) (q : σ → Bool) :
    (Stand.point p : Stand σ α).isAt q = q p := rfl

@[simp] theorem Stand.isAt_ended {σ α : Type} (r : Outcome α) (q : σ → Bool) :
    (Stand.ended r : Stand σ α).isAt q = false := rfl

theorem Stand.isAt_mono {σ α : Type} {t : Stand σ α} {b c : σ → Bool}
    (h : ∀ p, b p = true → c p = true) (ht : t.isAt b = true) : t.isAt c = true := by
  cases t with
  | point p => exact h p ht
  | ended r => cases ht

/-- One thing holds of the point where an operation stands, or another of how it ended. -/
def Stand.Meets {σ α : Type} (t : Stand σ α) (P : σ → Prop) (R : Outcome α → Prop) : Prop :=
  match t with
  | .point p => P p
  | .ended r => R r

/-! ### Locks -/

/-- What a member may hold to the exclusion of the others. -/
inductive Lock where
  | site
  | gate (s : Stage)
  deriving DecidableEq

def View.isTaken (v : View) : Lock → Bool
  | .site => v.entered
  | .gate s => (v.fixture.gates.get s).isActive

def Turn.Point.isOwner : Turn.Point → Bool
  | .enter | .queued _ => false
  | _ => true

def Acquire.Point.isInside : Acquire.Point → Bool
  | .look | .enter => false
  | _ => true

def Clear.Point.isInside : Clear.Point → Bool
  | .enter => false
  | _ => true

namespace Pass

def Point.turn? : Point → Option (Stage × Turn.Point)
  | .setUp _ p => some (⟨.iteration, .setUp⟩, p)
  | .tearDown _ _ p => some (⟨.iteration, .tearDown⟩, p)
  | .release _ (.cleaning _ p) => some (⟨.trial, .tearDown⟩, p)
  | _ => none

def Point.isInside : Point → Bool
  | .acquire p => p.isInside
  | .release _ (.clearing _ p) => p.isInside
  | _ => false

def Point.holds (p : Point) : Lock → Bool
  | .site => p.isInside
  | .gate s => match p.turn? with
    | some (r, q) => r = s && q.isOwner
    | none => false

theorem Point.holds_turn {p : Point} {s : Stage} {q : Turn.Point} (hp : p.turn? = some (s, q))
    (hi : p.isInside = false) (k : Lock) : p.holds k = (k = .gate s && q.isOwner) := by
  cases k with
  | site => simpa [holds] using hi
  | gate r =>
    simp only [holds, hp, Lock.gate.injEq]
    congr 2
    exact propext eq_comm

theorem Point.holds_acquire (p : Acquire.Point) (k : Lock) :
    Point.holds (.acquire p) k = (k = .site && p.isInside) := by
  cases k <;> simp [holds, isInside, turn?]

theorem Point.holds_clearing (r : Tally) (o : Outcome Unit) (p : Clear.Point) (k : Lock) :
    Point.holds (.release r (.clearing o p)) k = (k = .site && p.isInside) := by
  cases k <;> simp [holds, isInside, turn?]

/-- Outside the section, and outside every gate. -/
def Point.isFree (p : Point) : Bool :=
  !p.isInside && match p.turn? with
    | some (_, q) => !q.isOwner
    | none => true

theorem Point.holds_free {p : Point} (h : p.isFree = true) (k : Lock) : p.holds k = false := by
  simp only [isFree, Bool.and_eq_true, Bool.not_eq_true'] at h
  cases k with
  | site => exact h.1
  | gate s =>
    cases hp : p.turn? with
    | none => simp [holds, hp]
    | some q =>
      have hq : q.2.isOwner = false := by simpa [hp] using h.2
      simp [holds, hp, hq]

def Point.fixture? : Point → Option Nat
  | .acquire (.leave (.ok f)) | .arrive f _ | .setUp f _ | .enterWarmup f | .warmupGate f _
  | .warmupWork f _ | .noteStart f _ | .measure f _ _ | .noteStop f _ _ | .enterWarmdown f _ _
  | .warmdownGate f _ _ | .warmdownWork f _ _ | .depart f _ _ | .checkInterrupted f _
  | .checkFailed f _ | .force f _ | .tearDown f _ _ | .release _ (.cleaning f _) => some f
  | _ => none

def holds (t : Stand Point Report) (k : Lock) : Bool := t.isAt fun p => p.holds k

theorem Point.publishes_or (p : Point) :
    (∃ value, p = .acquire (.publish value)) ∨ ∀ value, p ≠ .acquire (.publish value) := by
  by_cases h : ∃ value, p = .acquire (.publish value)
  · exact .inl h
  · exact .inr fun value e => h ⟨value, e⟩

/-- The points from which the next step marks the trial failing. -/
def Point.Condemns (p : Point) : Prop :=
  p = .reject ∨ (∃ phase text, p = .condemn phase text) ∨ (∃ x, p = .acquire (.condemn x)) ∨
    ∃ s x, p.turn? = some (s, .condemn x)

/-- What the step of a pass changes of the view, and which locks it takes or gives back. -/
inductive Deed (f : Nat) (p : Point) (t : Stand Point Report) (v : View) : View → Prop where
  | still (hk : ∀ k, holds t k = p.holds k) : Deed f p t v v
  | fail (hp : p.Condemns) (hk : ∀ k, holds t k = p.holds k) :
      Deed f p t v { v with failed := true }
  | enter {s : Stage} (hp : p.turn? = some (s, .enter)) (hg : v.fixture.gates.get s = .idle)
      (hk : ∀ k, holds t k = if k = .gate s then true else p.holds k) :
      Deed f p t v (v.setGate s .active)
  | leave {s : Stage} {r : Outcome Unit} (hp : p.turn? = some (s, .leave r))
      (hk : ∀ k, holds t k = if k = .gate s then false else p.holds k) :
      Deed f p t v (v.setGate s .idle)
  | commit {s : Stage} (hp : p.turn? = some (s, .commit)) (hk : ∀ k, holds t k = p.holds k) :
      Deed f p t v (v.setReady s s.isSetUp)
  | comeIn (he : v.entered = false) (hk : ∀ k, holds t k = if k = .site then true else p.holds k) :
      Deed f p t v { v with entered := true }
  | goOut (hp : p.isInside = true) (hk : ∀ k, holds t k = if k = .site then false else p.holds k) :
      Deed f p t v { v with entered := false }
  | publish {value : Nat} (hp : p = .acquire (.publish value)) (hk : ∀ k, holds t k = p.holds k) :
      Deed f p t v { v with live := some f, published := f + 1, fixture := .fresh value }
  | clear {r : Tally} {o : Outcome Unit} (hp : p = .release r (.clearing o .store))
      (hk : ∀ k, holds t k = p.holds k) : Deed f p t v { v with live := none }

@[simp] theorem turn_iteration (a : Pass) (f : Nat) (s : Stage) :
    (a.turn f s).iteration = a.iteration := rfl

@[simp] theorem turn_fixture (a : Pass) (f : Nat) (s : Stage) : (a.turn f s).fixture = f := rfl

@[simp] theorem turn_stage (a : Pass) (f : Nat) (s : Stage) : (a.turn f s).stage = s := rfl

@[simp] theorem acquisition_iteration (a : Pass) : a.acquisition.iteration = a.iteration := rfl

@[simp] theorem acquisition_site (a : Pass) : a.acquisition.site = a.site := rfl

@[simp] theorem clear_site (a : Pass) : a.giveBack.clear.site = a.site := rfl

section
variable {a : Pass} {m m' : Memory} {f : Nat} {P : Point} {T : Stand Point Report}

theorem deed_of_turn {s : Stage} {p : Turn.Point} {u : Stand Turn.Point Unit}
    (h : (a.turn f s).Step m p m' u) (hP : P.turn? = some (s, p)) (hPi : P.isInside = false)
    (hT : ∀ k, holds T k = (k = .gate s && u.isAt Turn.Point.isOwner)) :
    Deed f P T (m.view a.iteration a.site f) (m'.view a.iteration a.site f) := by
  have hPk := Point.holds_turn hP hPi
  have same (hp : u.isAt Turn.Point.isOwner = p.isOwner) (k : Lock) : holds T k = P.holds k := by
    rw [hT, hPk, hp]
  cases h with
  | enter hg =>
    rw [turn_fixture, turn_stage, Memory.view_setGate]
    refine .enter hP hg ?_
    intro k
    rw [hT, hPk]
    by_cases hk : k = .gate s <;> simp [hk, Turn.Point.isOwner]
  | queue | wait | foundIdle | giveUp | join | foundFailed => exact .still (same rfl)
  | abort | proceed | settled | due | returned | mishap => exact .still (same rfl)
  | condemn =>
    rw [turn_iteration, Memory.view_setFailed]
    exact .fail (.inr (.inr (.inr ⟨s, _, hP⟩))) (same rfl)
  | commit =>
    rw [turn_fixture, turn_stage, Memory.view_setReady]
    exact .commit hP (same rfl)
  | leave =>
    rw [turn_fixture, turn_stage, Memory.view_setGate]
    refine .leave hP ?_
    intro k
    rw [hT, hPk]
    by_cases hk : k = .gate s <;> simp [hk]

theorem deed_of_clear {r : Tally} {o : Outcome Unit} {p : Clear.Point} {u : Stand Clear.Point Unit}
    (h : a.giveBack.clear.Step m p m' u)
    (hT : ∀ k, holds T k = (k = .site && u.isAt Clear.Point.isInside)) :
    Deed f (.release r (.clearing o p)) T (m.view a.iteration a.site f)
      (m'.view a.iteration a.site f) := by
  have hPk := Point.holds_clearing r o p
  cases h with
  | enter he =>
    rw [clear_site, Memory.view_setEntered]
    refine .comeIn he ?_
    intro k
    rw [hT, hPk]
    by_cases hk : k = .site <;> simp [hk, Clear.Point.isInside]
  | store =>
    rw [clear_site, Memory.view_clear]
    refine .clear rfl ?_
    intro k
    rw [hT, hPk]
    rfl
  | leave =>
    rw [clear_site, Memory.view_setEntered]
    refine .goOut rfl ?_
    intro k
    rw [hT, hPk]
    by_cases hk : k = .site <;> simp [hk]

theorem deed_of_acquire {p : Acquire.Point} {u : Stand Acquire.Point Nat}
    (h : a.acquisition.Step m p m' u) (hf : ∀ value, p = .publish value → m.published = f)
    (hT : ∀ k, holds T k = (k = .site && u.isAt Acquire.Point.isInside)) :
    Deed f (.acquire p) T (m.view a.iteration a.site f) (m'.view a.iteration a.site f) := by
  have hPk := Point.holds_acquire p
  have same (hp : u.isAt Acquire.Point.isInside = p.isInside) (k : Lock) :
      holds T k = Point.holds (.acquire p) k := by rw [hT, hPk, hp]
  cases h with
  | found | vacant => exact .still (same rfl)
  | enter he =>
    rw [acquisition_site, Memory.view_setEntered]
    refine .comeIn he ?_
    intro k
    rw [hT, hPk]
    by_cases hk : k = .site <;> simp [hk, Acquire.Point.isInside]
  | foundLate | stillVacant | abort | proceed | constructed | mishap | setUp | setUpMishap =>
    exact .still (same rfl)
  | @publish value =>
    rw [acquisition_site, Memory.view_publish _ _ (hf value rfl)]
    exact .publish rfl (same rfl)
  | condemn =>
    rw [acquisition_iteration, Memory.view_setFailed]
    exact .fail (.inr (.inr (.inl ⟨_, rfl⟩))) (same rfl)
  | leave =>
    rw [acquisition_site, Memory.view_setEntered]
    refine .goOut rfl ?_
    intro k
    rw [hT, hPk]
    by_cases hk : k = .site <;> simp [hk]

theorem holds_onward {α : Type} {phase : Phase} {next : α → Point} {o : Outcome α}
    (hn : ∀ v, (next v).isFree = true) (k : Lock) : holds (onward phase next o) k = false := by
  cases o with
  | ok v => exact Point.holds_free (hn v) k
  | failed e | crashed text => cases k <;> rfl

theorem Step.deed {p : Point} {t : Stand Point Report} (h : a.Step m p m' t)
    (hf : ∀ g, p.fixture? = some g → g = f)
    (hpub : ∀ value, p = .acquire (.publish value) → m.published = f) :
    Deed f p t (m.view a.iteration a.site f) (m'.view a.iteration a.site f) := by
  have hi : m'.isInterrupted a.iteration = m.isInterrupted a.iteration := h.attended.interrupted
  have free {q : Point} (hq : q.isFree = true) : ∀ k, holds (.point q) k = false :=
    Point.holds_free hq
  -- neither end of the step holds a lock
  have away {v : View} (hp : p.isFree = true) (ht : ∀ k, holds t k = false)
      (hv : m'.view a.iteration a.site f = v := by rfl)
      (hm : v = m.view a.iteration a.site f := by rfl) :
      Deed f p t (m.view a.iteration a.site f) (m'.view a.iteration a.site f) := by
    rw [hv, hm]
    exact .still fun k => (ht k).trans (Point.holds_free hp k).symm
  have signalled {g : Signals → Signals} (hm : m' = m.signal a.iteration g) :
      m'.view a.iteration a.site f = m.view a.iteration a.site f := by
    subst hm
    exact Memory.view_signal m hi
  cases h with
  | enrol | misplaced => exact away rfl (free rfl)
  | reject =>
    rw [Memory.view_setFailed]
    exact .fail (.inl rfl) fun k => (free rfl k).trans (Point.holds_free rfl k).symm
  | @acquire p q _ h =>
    exact deed_of_acquire h (fun value hp => hpub value (congrArg _ hp)) (Point.holds_acquire q)
  | acquired h =>
    apply deed_of_acquire h (fun value hp => hpub value (congrArg _ hp))
    intro k
    rw [holds_onward fun _ => rfl]
    simp
  | arrive h =>
    cases h with
    | announce => exact away rfl (free rfl) (signalled rfl)
    | wait => exact away rfl (free rfl)
  | arrived h => cases h <;> exact away rfl (holds_onward fun _ => rfl)
  | @setUp g p q _ h =>
    cases hf g rfl
    exact deed_of_turn h rfl rfl (Point.holds_turn rfl rfl)
  | @setUpDone g p _ o h =>
    cases hf g rfl
    apply deed_of_turn h rfl rfl
    intro k
    rw [holds_onward fun _ => by unfold afterSetUp; split <;> rfl]
    simp
  | enterWarmup | noteStart | enterWarmdown | force => exact away rfl (free rfl) (signalled rfl)
  | stayWarmup | leaveWarmup | warmupWorked | warmupCrashed => exact away rfl (free rfl)
  | measure h => cases h <;> exact away rfl (free rfl)
  | measured h =>
    cases h with
    | widenMask => exact away rfl (holds_onward fun _ => rfl) (signalled rfl)
    | _ => exact away rfl (holds_onward fun _ => rfl)
  | @noteStop g ops r =>
    exact away rfl (free (by unfold afterMeasured; split <;> rfl)) (signalled rfl)
  | stayWarmdown | leaveWarmdown | warmdownWorked | warmdownCrashed => exact away rfl (free rfl)
  | depart h =>
    cases h with
    | announce => exact away rfl (free rfl) (signalled rfl)
    | wait => exact away rfl (free rfl)
  | met h | notMet h =>
    cases h
    exact away rfl (free rfl)
  | interrupted | notInterrupted | abort | proceed => exact away rfl (free rfl)
  | @tearDown g r p q _ h =>
    cases hf g rfl
    exact deed_of_turn h rfl rfl (Point.holds_turn rfl rfl)
  | @tearDownDone g r p _ o h =>
    cases hf g rfl
    apply deed_of_turn h rfl rfl
    intro k
    rw [holds_onward fun _ => by unfold afterTearDown; split <;> rfl]
    simp
  | enterRelease => exact away rfl (free rfl)
  | release h =>
    cases h with
    | found | vacant | abort | proceed => exact away rfl (free rfl)
    | @cleaning g p q _ ht =>
      cases hf g rfl
      exact deed_of_turn ht rfl rfl (Point.holds_turn rfl rfl)
    | @cleaned g p _ r ht hr =>
      cases hf g rfl
      apply deed_of_turn ht rfl rfl
      intro k
      rw [holds, Stand.isAt_point, Point.holds_free rfl]
      simp
    | clearing hc => exact deed_of_clear hc (Point.holds_clearing _ _ _)
  | released h =>
    cases h with
    | @crashed g p _ text ht =>
      cases hf g rfl
      apply deed_of_turn ht rfl rfl
      intro k
      rw [holds_onward fun _ => rfl]
      simp
    | cleared hc =>
      apply deed_of_clear hc
      intro k
      rw [holds_onward fun _ => rfl]
      simp
  | void | finish | fail => exact away rfl (by intro k; cases k <;> rfl)
  | condemn =>
    rw [Memory.view_setFailed]
    exact .fail (.inr (.inl ⟨_, _, rfl⟩)) fun k => (Point.holds_free rfl k).symm

end

namespace Deed
variable {f : Nat} {p : Point} {t : Stand Point Report} {v v' : View}

/-- A deed keeps a lock as it is, takes it when nobody has it, or gives it back. A
publication brings new gates. -/
theorem handles (h : Deed f p t v v') {k : Lock}
    (hk : k = .site ∨ ∀ value, p ≠ .acquire (.publish value)) :
    (holds t k = p.holds k ∧ v'.isTaken k = v.isTaken k) ∨
      (v.isTaken k = false ∧ v'.isTaken k = true ∧ holds t k = true) ∨
      (p.holds k = true ∧ v'.isTaken k = false ∧ holds t k = false) := by
  cases h with
  | still hh | fail _ hh | clear _ hh =>
    refine .inl ⟨hh k, ?_⟩
    cases k <;> rfl
  | commit _ hh =>
    refine .inl ⟨hh k, ?_⟩
    cases k <;> rfl
  | @enter s hp hg hh =>
    by_cases hks : k = .gate s
    · subst hks
      exact .inr (.inl
        ⟨by simp [View.isTaken, hg], by simp [View.isTaken, View.setGate], by rw [hh, if_pos rfl]⟩)
    · refine .inl ⟨by rw [hh, if_neg hks], ?_⟩
      cases k with
      | site => rfl
      | gate r =>
        have hr : r ≠ s := fun e => hks (congrArg _ e)
        simp [View.isTaken, View.setGate, Stages.get_set_ne _ _ hr]
  | @leave s r hp hh =>
    by_cases hks : k = .gate s
    · subst hks
      exact .inr (.inr ⟨by simp [Point.holds, hp, Turn.Point.isOwner], by simp [View.isTaken,
        View.setGate], by simp [hh]⟩)
    · refine .inl ⟨by rw [hh, if_neg hks], ?_⟩
      cases k with
      | site => rfl
      | gate r =>
        have hr : r ≠ s := fun e => hks (congrArg _ e)
        simp [View.isTaken, View.setGate, Stages.get_set_ne _ _ hr]
  | comeIn he hh =>
    cases k with
    | site => exact .inr (.inl ⟨he, rfl, by rw [hh, if_pos rfl]⟩)
    | gate s => exact .inl ⟨by rw [hh, if_neg nofun], rfl⟩
  | goOut hi hh =>
    cases k with
    | site => exact .inr (.inr ⟨hi, rfl, by rw [hh, if_pos rfl]⟩)
    | gate s => exact .inl ⟨by rw [hh, if_neg nofun], rfl⟩
  | publish hp hh =>
    cases k with
    | site => exact .inl ⟨hh _, rfl⟩
    | gate s => exact absurd hp (hk.resolve_left nofun _)

/-- A level changes only in a turn at it, or when a fixture is published. -/
theorem settled (h : Deed f p t v v') {s : Stage}
    (ht : ∀ r, p.turn? = some (r, .commit) → s.level ≠ r.level)
    (hp : ∀ value, p ≠ .acquire (.publish value)) : v'.Settled s ↔ v.Settled s := by
  cases h with
  | commit hc => exact v.settled_setReady_ne _ (ht _ hc)
  | publish hv => exact absurd hv (hp _)
  | _ => rfl

end Deed
end Pass

/-- At most one member holds a lock, and then it is taken. -/
structure Exclusive (k : Lock) (v : View) (l : List (Stand Pass.Point Report)) : Prop where
  taken : ∀ {i : Nat} {t : Stand Pass.Point Report}, l[i]? = some t → Pass.holds t k = true →
    v.isTaken k = true
  unique : ∀ {i j : Nat} {t u : Stand Pass.Point Report}, l[i]? = some t → l[j]? = some u →
    Pass.holds t k = true → Pass.holds u k = true → i = j

namespace Exclusive
variable {k : Lock} {v v' : View} {l : List (Stand Pass.Point Report)}

theorem of_none (h : ∀ t ∈ l, Pass.holds t k = false) : Exclusive k v l where
  taken hi ht := absurd ht (by simp [h _ (List.mem_of_getElem? hi)])
  unique hi _ ht := absurd ht (by simp [h _ (List.mem_of_getElem? hi)])

theorem deed (h : Exclusive k v l) {f i : Nat} {p : Pass.Point} {t : Stand Pass.Point Report}
    (hi : l[i]? = some (.point p)) (hd : Pass.Deed f p t v v')
    (hk : k = .site ∨ ∀ value, p ≠ .acquire (.publish value)) : Exclusive k v' (l.set i t) := by
  rcases hd.handles hk with ⟨hs, ht⟩ | ⟨hv, hv', _⟩ | ⟨hp, _, ht⟩
  · -- the lock is handled by nobody
    have back {j : Nat} {u : Stand Pass.Point Report} (hj : (l.set i t)[j]? = some u)
        (hu : Pass.holds u k = true) : ∃ u', l[j]? = some u' ∧ Pass.holds u' k = true := by
      rcases getElem?_set_eq_some hj with ⟨rfl, rfl⟩ | ⟨_, hj⟩
      · exact ⟨_, hi, hs.symm.trans hu⟩
      · exact ⟨u, hj, hu⟩
    constructor
    · intro j u hj hu
      obtain ⟨u', hj', hu'⟩ := back hj hu
      exact ht.trans (h.taken hj' hu')
    · intro j j' u u' hj hj' hu hu'
      obtain ⟨_, hj, hu⟩ := back hj hu
      obtain ⟨_, hj', hu'⟩ := back hj' hu'
      exact h.unique hj hj' hu hu'
  · -- it is taken: nobody else has it
    have mine {j : Nat} {u : Stand Pass.Point Report} (hj : (l.set i t)[j]? = some u)
        (hu : Pass.holds u k = true) : i = j := by
      rcases getElem?_set_eq_some hj with ⟨hij, _⟩ | ⟨_, hj⟩
      · exact hij
      · exact absurd (h.taken hj hu) (by simp [hv])
    exact ⟨fun _ _ => hv', fun hj hj' hu hu' => (mine hj hu).symm.trans (mine hj' hu')⟩
  · -- it is given back: nobody has it any more
    have nobody {j : Nat} {u : Stand Pass.Point Report} (hj : (l.set i t)[j]? = some u) :
        ¬ Pass.holds u k = true := by
      intro hu
      rcases getElem?_set_eq_some hj with ⟨_, rfl⟩ | ⟨hij, hj⟩
      · simp [ht] at hu
      · exact hij (h.unique hi hj hp hu)
    exact ⟨fun hj hu => (nobody hj hu).elim, fun hj _ hu => (nobody hj hu).elim⟩

end Exclusive
end LoadBench
