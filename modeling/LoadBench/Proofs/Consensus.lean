import LoadBench.Proofs.Errand

/-!
# One hook for all

Any number of errands that ask for the same stage of the same fixture, in one trial, while nothing
is interrupted and nobody else touches the level. The `Story` of such a pool is how far the stage
has come: nobody has asked yet, one errand owns the gate and is at it, the level is settled, or the
hook went wrong. What each errand may do and report follows from the story alone. The story moves on
while its owner holds the gate, before anybody who is queued can find the gate idle.
-/

namespace LoadBench
namespace Errand
open Pool

def iteration : Errand → Iteration
  | turn t => t.iteration
  | release a => a.iteration

def verdict (f : Nat) : Errand → Mishap → Outcome Unit
  | turn t => t.verdict
  | release a => (a.turn f).verdict

/-- A stage of a fixture, the flag by which its trial fails, and the site where it is live. -/
structure Matter where
  fixture : Nat
  stage : Stage
  flag : Nat
  site : Site

namespace Matter

/-- The errand asks for the stage: by a turn, or by a release if the stage is the cleanup. -/
def Covers (c : Matter) : Errand → Prop
  | turn t => t.fixture = c.fixture ∧ t.stage = c.stage ∧ t.iteration.trial = c.flag
  | release a => a.site = c.site ∧ c.stage = ⟨.trial, .tearDown⟩ ∧ a.iteration.trial = c.flag

def IsSettled (c : Matter) (m : Memory) : Prop := m.isReady c.fixture c.stage = c.stage.isSetUp

instance (c : Matter) (m : Memory) : Decidable (c.IsSettled m) :=
  inferInstanceAs (Decidable (_ = _))

/-- What others may do meanwhile: anything that leaves the gate, the level, the failure flag, the
site and the interruptions as they are. -/
structure Spared (c : Matter) (errands : Nat → Errand) (m m' : Memory) : Prop where
  gate : m'.gate c.fixture c.stage = m.gate c.fixture c.stage
  ready : m'.isReady c.fixture c.stage = m.isReady c.fixture c.stage
  failing : m'.failing.get c.flag = m.failing.get c.flag
  interrupted : ∀ i, m'.isInterrupted (errands i).iteration = m.isInterrupted (errands i).iteration
  slot : m'.slots.get c.site.id = m.slots.get c.site.id

end Matter

/-- Where an errand stands as regards its stage: a release that is about to look has yet to enter,
one that found nothing live looks at the failure flag as the last of a queue does, and one that
clears the site is done. -/
def stance : Stand Point Unit → Stand Turn.Point Unit
  | .point (.turn _ p) | .point (.release _ (.cleaning _ p)) => .point p
  | .point (.release _ .look) => .point .enter
  | .point (.release _ .checkFailed) => .point (.queued .checkFailed)
  | .point (.release _ (.clearing r _)) | .ended r => .ended r

/-- An errand that stands at a point of its own. -/
def Fits (c : Matter) (e : Errand) : Stand Point Unit → Prop
  | .point (.turn t _) => e = turn t
  | .point (.release a (.cleaning f _)) => e = release a ∧ f = c.fixture
  | .point (.release a _) => e = release a
  | .ended _ => True

theorem Fits.release {c : Matter} {e : Errand} {a : Release} {p : Release.Point}
    (h : Fits c e (.point (.release a p))) : e = .release a := by
  cases p with
  | cleaning f q => exact h.1
  | look | checkFailed | clearing => exact h

theorem Fits.turn {c : Matter} {e : Errand} {p : Point} {t : Turn} {q : Turn.Point}
    (h : Fits c e (.point p)) (hc : c.Covers e) (hp : p.turn? = some (t, q)) :
    stance (.point p) = .point q ∧ t.fixture = c.fixture ∧ t.stage = c.stage ∧
      t.iteration.trial = c.flag ∧ t.iteration = e.iteration ∧ t.verdict = e.verdict c.fixture := by
  cases p with
  | turn t' q' =>
    cases hp
    subst h
    exact ⟨rfl, hc.1, hc.2.1, hc.2.2, rfl, rfl⟩
  | release a q' =>
    cases q' with
    | cleaning f q' =>
      cases hp
      obtain ⟨rfl, rfl⟩ := h
      exact ⟨rfl, rfl, hc.2.1.symm, hc.2.2, rfl, rfl⟩
    | look | checkFailed | clearing => cases hp

/-- How far the stage has come. -/
inductive Story where
  | fresh
  | busy (i : Nat)
  | settled
  | failed (i : Nat) (x : Mishap)

namespace Story

/-- The errand that is at the hook, or at which the hook went wrong. -/
def owner? : Story → Option Nat
  | fresh | settled => none
  | busy i | failed i _ => some i

def IsOver : Story → Prop
  | fresh | busy _ => False
  | settled | failed .. => True

/-- What the errand with number `j` may report. -/
def Answers (s : Story) (verdict : Mishap → Outcome Unit) (j : Nat) (r : Outcome Unit) : Prop :=
  match s with
  | fresh | busy _ => False
  | settled => r = .ok ()
  | failed i x => j = i ∧ r = verdict x ∨ j ≠ i ∧ r = .failed .aborted

/-- Where the errand with number `j` may stand. -/
def Allows (s : Story) (verdict : Mishap → Outcome Unit) (j : Nat) : Stand Turn.Point Unit → Prop
  | .point .enter => s.owner? ≠ some j
  | .point (.queued (.waiting _)) => s.owner? ≠ some j ∧ s ≠ fresh
  | .point (.queued .checkFailed) => s.owner? ≠ some j ∧ s.IsOver
  | .point .checkFailed => s = busy j ∨ s.owner? ≠ some j ∧ s.IsOver
  | .point .checkReady => s = busy j ∨ s = settled
  | .point .hook | .point .commit | .point (.condemn _) => s = busy j
  | .point (.leave r) | .ended r => s.Answers verdict j r

end Story

def ran (s : Stage) (i : Nat) (r : Reply) : List (Nat × Hook × Option Reply) :=
  [(i, .stage s, none), (i, .stage s, some r)]

/-- The owner of the gate on its way, and what was seen of its hook. -/
inductive Busy (s : Stage) (i : Nat) : Stand Turn.Point Unit → Bool →
    List (Nat × Hook × Option Reply) → Prop where
  | checkFailed {b : Bool} : Busy s i (.point .checkFailed) b []
  | checkReady {b : Bool} : Busy s i (.point .checkReady) b []
  | due : Busy s i (.point .hook) false []
  | running : Busy s i (.point .hook) true [(i, .stage s, none)]
  | returned {v : Nat} {b : Bool} : Busy s i (.point .commit) b (ran s i (.returned v))
  | mishap {x : Mishap} {b : Bool} : Busy s i (.point (.condemn x)) b (ran s i x.reply)

/-- What the memory, the owner and the hooks tell of the stage, whose level stood at
`ready` in the beginning. -/
def Story.Shows (s : Story) (c : Matter) (ready : Bool) (seen : List (Nat × Hook × Option Reply))
    (w : Pool Point Unit) : Prop :=
  match s with
  | .fresh => ready ≠ c.stage.isSetUp ∧ w.memory.isReady c.fixture c.stage = ready ∧
      w.memory.failing.get c.flag = false ∧ seen = []
  | .busy i => ready ≠ c.stage.isSetUp ∧ w.memory.isReady c.fixture c.stage = ready ∧
      w.memory.failing.get c.flag = false ∧
      ∃ u, w.strands[i]? = some u ∧ Busy c.stage i (stance u.stand) u.calling seen
  | .settled => c.IsSettled w.memory ∧ w.memory.failing.get c.flag = false ∧
      (ready = c.stage.isSetUp ∧ seen = [] ∨ ready ≠ c.stage.isSetUp ∧
        ∃ i v, seen = ran c.stage i (.returned v))
  | .failed i x => ready ≠ c.stage.isSetUp ∧ w.memory.isReady c.fixture c.stage = ready ∧
      w.memory.failing.get c.flag = true ∧ seen = ran c.stage i x.reply

/-- The pool is as its story tells. -/
structure Tale (c : Matter) (errands : Nat → Errand) (ready : Bool) (s : Story)
    (seen : List (Nat × Hook × Option Reply)) (w : Pool Point Unit) : Prop where
  kept : Kept (w.memory.gate c.fixture c.stage).isActive (owns c.fixture c.stage) w.strands
  calm : ∀ j, w.memory.isInterrupted (errands j).iteration = false
  fits : ∀ {j u}, w.strands[j]? = some u → Fits c (errands j) u.stand
  each : ∀ {j u}, w.strands[j]? = some u →
    s.Allows ((errands j).verdict c.fixture) j (stance u.stand)
  shown : s.Shows c ready seen w

section
variable {c : Matter} {errands : Nat → Errand} {ready : Bool} {s s' : Story}
  {seen seen' : List (Nat × Hook × Option Reply)} {w : Pool Point Unit} {m : Memory} {i j : Nat}
  {u v : Strand Point Unit} {p : Point} {b : Bool}

theorem Story.Shows.congr {w' : Pool Point Unit} (h : s.Shows c ready seen w)
    (hr : w'.memory.isReady c.fixture c.stage = w.memory.isReady c.fixture c.stage)
    (hf : w'.memory.failing.get c.flag = w.memory.failing.get c.flag)
    (hb : ∀ k, s = .busy k → w'.strands[k]? = w.strands[k]?) : s.Shows c ready seen w' := by
  cases s with
  | fresh | failed => exact ⟨h.1, hr.trans h.2.1, hf.trans h.2.2.1, h.2.2.2⟩
  | settled => exact ⟨hr.trans h.1, hf.trans h.2.1, h.2.2⟩
  | busy k =>
    obtain ⟨hd, hr', hf', u, hu, hk⟩ := h
    exact ⟨hd, hr.trans hr', hf.trans hf', u, (hb k rfl).trans hu, hk⟩

theorem Story.Shows.set (h : s.Shows c ready seen w) (hb : s ≠ .busy i)
    (hr : m.isReady c.fixture c.stage = w.memory.isReady c.fixture c.stage)
    (hf : m.failing.get c.flag = w.memory.failing.get c.flag) :
    s.Shows c ready seen ⟨m, w.strands.set i v⟩ :=
  h.congr hr hf fun _ hk => List.getElem?_set_ne fun e => hb (by rw [e]; exact hk)

theorem Tale.next (h : Tale c errands ready s seen w) (hi : w.strands[i]? = some u)
    (hk : (m.gate c.fixture c.stage).isActive.toNat + (owns c.fixture c.stage u.stand).toNat =
      (w.memory.gate c.fixture c.stage).isActive.toNat + (owns c.fixture c.stage v.stand).toNat)
    (hint : m.signals = w.memory.signals) (hv : Fits c (errands i) v.stand)
    (hothers : ∀ {j x}, j ≠ i → s.Allows ((errands j).verdict c.fixture) j x →
      s'.Allows ((errands j).verdict c.fixture) j x)
    (ha : s'.Allows ((errands i).verdict c.fixture) i (stance v.stand))
    (hs : s'.Shows c ready seen' ⟨m, w.strands.set i v⟩) :
    Tale c errands ready s' seen' ⟨m, w.strands.set i v⟩ where
  kept := h.kept.set hi hk
  calm j := by
    rw [Memory.isInterrupted, Memory.signalsOf, hint]
    exact h.calm j
  fits := by
    intro j x hj
    rcases getElem?_set_eq_some hj with ⟨rfl, rfl⟩ | ⟨_, hj⟩
    · exact hv
    · exact h.fits hj
  each := by
    intro j x hj
    rcases getElem?_set_eq_some hj with ⟨rfl, rfl⟩ | ⟨hij, hj⟩
    · exact ha
    · exact hothers hij.symm (h.each hj)
  shown := hs

/-- Before anybody has entered, everybody has yet to. -/
theorem Story.Allows.of_fresh {verdict : Mishap → Outcome Unit} {x : Stand Turn.Point Unit}
    (h : fresh.Allows verdict j x) : x = .point .enter := by
  cases x with
  | ended r => exact h.elim
  | point q =>
    cases q with
    | enter => rfl
    | queued q =>
      cases q with
      | waiting q => exact absurd rfl h.2
      | checkFailed => exact h.2.elim
    | checkFailed =>
      rcases h with h | h
      · cases h
      · exact h.2.elim
    | checkReady => rcases h with h | h <;> cases h
    | hook | condemn | commit => cases h
    | leave r => exact h.elim

/-- While somebody is busy, all others have yet to enter or are queued. -/
theorem Story.Allows.of_busy {verdict : Mishap → Outcome Unit} {x : Stand Turn.Point Unit}
    (h : (busy i).Allows verdict j x) (hj : j ≠ i) (hs : s'.owner? ≠ some j) (hf : s' ≠ fresh) :
    s'.Allows verdict j x := by
  have hij : busy i ≠ busy j := fun e => hj (Story.busy.inj e).symm
  cases x with
  | ended r => exact h.elim
  | point q =>
    cases q with
    | enter => exact hs
    | queued q =>
      cases q with
      | waiting q => exact ⟨hs, hf⟩
      | checkFailed => exact h.2.elim
    | checkFailed =>
      rcases h with h | h
      · exact absurd h hij
      · exact h.2.elim
    | checkReady =>
      rcases h with h | h
      · exact absurd h hij
      · cases h
    | hook | condemn | commit => exact absurd h hij
    | leave r => exact h.elim

theorem stance_of_turn {t : Turn} {q : Turn.Point} (hp : p.turn? = some (t, q)) :
    stance (.point p) = .point q := by
  cases p with
  | turn t' q' => cases hp; rfl
  | release a q' =>
    cases q' with
    | cleaning f q' => cases hp; rfl
    | look | checkFailed | clearing => cases hp

theorem turn?_of_stance {x : Stand Point Unit} {q : Turn.Point} (hx : stance x = .point q)
    (hq : q.isOwner = true) :
    ∃ t, turn? x = some (t, q) := by
  cases x with
  | ended r => cases hx
  | point p =>
    cases p with
    | turn t q' => cases hx; exact ⟨t, rfl⟩
    | release a q' =>
      cases q' with
      | cleaning f q' => cases hx; exact ⟨a.turn f, rfl⟩
      | look | checkFailed => cases hx; cases hq
      | clearing => cases hx

theorem Busy.owner {t : Stage} {x : Stand Turn.Point Unit} (h : Busy t i x b seen) :
    ∃ q, x = .point q ∧ q.isOwner = true := by
  cases h <;> exact ⟨_, rfl, rfl⟩

theorem Busy.once {t : Stage} {x : Stand Turn.Point Unit} (h : Busy t i x b seen) :
    seen.countP (fun e => e.2.2.isNone) ≤ 1 := by
  cases h <;> first | exact Nat.zero_le 1 | exact Nat.le_refl 1

theorem Tale.active_of_busy (h : Tale c errands ready (.busy i) seen w)
    (hc : ∀ j, c.Covers (errands j)) :
    w.memory.gate c.fixture c.stage = .active := by
  obtain ⟨_, _, _, ⟨x, b⟩, hu, hb⟩ := h.shown
  obtain ⟨q, hx, hq⟩ := hb.owner
  obtain ⟨t, ht⟩ := turn?_of_stance hx hq
  cases x with
  | ended r => cases ht
  | point p =>
    obtain ⟨_, hf, hs, _⟩ := (h.fits hu).turn (hc i) ht
    have ho : owns c.fixture c.stage (.point p) = true := by
      rw [owns_of_turn ht, Turn.owns, hf, hs, hq]
      simp
    have := h.kept.taken_of hu ho
    cases hg : w.memory.gate c.fixture c.stage with
    | active => rfl
    | idle => rw [hg] at this; cases this

theorem Tale.idle_of_fresh (h : Tale c errands ready .fresh seen w) :
    w.memory.gate c.fixture c.stage = .idle := by
  cases hg : w.memory.gate c.fixture c.stage with
  | idle => rfl
  | active =>
    have hk := h.kept
    rw [hg] at hk
    obtain ⟨k, ⟨x, b⟩, hu, ho⟩ := hk.exists_holder
    obtain ⟨⟨t, q⟩, ht, hq⟩ := (Option.any_eq_true _ _).mp ho
    cases x with
    | ended r => cases ht
    | point p =>
      have hx := (h.each hu).of_fresh
      rw [stance_of_turn ht] at hx
      cases hx
      simp [Turn.owns, Turn.Point.isOwner] at hq

/-- The failure flag is set just when the hook went wrong. -/
theorem Story.Shows.failing (h : s.Shows c ready seen w) :
    w.memory.failing.get c.flag = true ↔ ∃ k x, s = .failed k x := by
  cases s with
  | fresh | busy k => simp [h.2.2.1]
  | settled => simp [h.2.1]
  | failed k x => simp [h.2.2.1]

theorem Story.Shows.aborted (h : s.Shows c ready seen w) (hf : w.memory.failing.get c.flag = true)
    (hi : s.owner? ≠ some i) (verdict : Mishap → Outcome Unit) :
    s.Answers verdict i (.failed .aborted) := by
  obtain ⟨k, y, rfl⟩ := h.failing.mp hf
  exact .inr ⟨fun e => hi (by rw [e]; rfl), rfl⟩

theorem Story.Shows.settled (h : s.Shows c ready seen w) (hf : w.memory.failing.get c.flag = false)
    (hs : s.IsOver) : s = .settled := by
  cases s with
  | settled => rfl
  | fresh | busy => exact hs.elim
  | failed k y => exact Bool.noConfusion (hf.symm.trans (h.failing.mpr ⟨k, y, rfl⟩))

theorem Story.Answers.isOver {verdict : Mishap → Outcome Unit} {r : Outcome Unit}
    (h : s.Answers verdict i r) :
    s.IsOver := by
  cases s with
  | fresh | busy => exact h.elim
  | settled | failed => exact trivial

theorem Story.IsOver.not_busy (h : s.IsOver) (i : Nat) : s ≠ .busy i := by
  rintro rfl
  exact h

theorem Story.not_busy (hs : s.owner? ≠ some i) : s ≠ .busy i := fun e => hs (by rw [e]; rfl)

/-- The gate is idle only before the stage has begun, or after it is over. -/
theorem Tale.over_of_idle (h : Tale c errands ready s seen w) (hc : ∀ j, c.Covers (errands j))
    (hg : w.memory.gate c.fixture c.stage = .idle) (hs : s ≠ .fresh) : s.IsOver := by
  cases s with
  | fresh => exact absurd rfl hs
  | busy k => cases (h.active_of_busy hc).symm.trans hg
  | settled | failed => exact trivial

/-- A step of a turn changes the gate as it changes the owner. -/
theorem Tale.gate_of_step (h : Tale c errands ready s seen w)
    (hi : w.strands[i]? = some ⟨.point p, b⟩) {t : Turn} {q : Turn.Point}
    (hp : p.turn? = some (t, q)) {x : Stand Turn.Point Unit} (ht : t.Step w.memory q m x)
    (hvt : turn? v.stand = inTurnAt t x) :
    (m.gate c.fixture c.stage).isActive.toNat + (owns c.fixture c.stage (.point p)).toNat =
      (w.memory.gate c.fixture c.stage).isActive.toNat +
        (owns c.fixture c.stage v.stand).toNat := by
  have ho : owns c.fixture c.stage (.point p) = t.owns c.fixture c.stage q :=
    owns_of_turn (u := .point p) hp ..
  have hx : owns c.fixture c.stage v.stand = x.isAt (t.owns c.fixture c.stage) := by
    cases x with
    | point q' => exact owns_of_turn hvt ..
    | ended r => exact owns_of_none hvt ..
  rw [ho, hx]
  exact ht.gate _ _ fun e => h.kept.taken_of hi (ho.trans e)

/-- What is shown while somebody is busy is shown of that errand. -/
theorem Story.Shows.owner (h : (busy i).Shows c ready seen w)
    (hi : w.strands[i]? = some ⟨.point p, b⟩) {q : Turn.Point}
    (hst : stance (.point p) = .point q) :
    ready ≠ c.stage.isSetUp ∧ w.memory.isReady c.fixture c.stage = ready ∧
      w.memory.failing.get c.flag = false ∧ Busy c.stage i (.point q) b seen := by
  obtain ⟨hd, hr, hf, u, hu, hbusy⟩ := h
  cases hi.symm.trans hu
  exact ⟨hd, hr, hf, hst ▸ hbusy⟩

theorem Story.Shows.of_owner (hi : w.strands[i]? = some u) (hd : ready ≠ c.stage.isSetUp)
    (hr : m.isReady c.fixture c.stage = ready) (hf : m.failing.get c.flag = false)
    (hb : Busy c.stage i (stance v.stand) v.calling seen) :
    (busy i).Shows c ready seen ⟨m, w.strands.set i v⟩ :=
  ⟨hd, hr, hf, v, List.getElem?_set_self (List.getElem?_eq_some_iff.mp hi).1, hb⟩

theorem Tale.turn (h : Tale c errands ready s seen w) (hc : ∀ j, c.Covers (errands j))
    (hi : w.strands[i]? = some ⟨.point p, b⟩) {t : Turn} {q : Turn.Point}
    (hp : p.turn? = some (t, q)) {x : Stand Turn.Point Unit} (ht : t.Step w.memory q m x)
    (hq : q ≠ .hook) (hv : stance v.stand = x) (hfit : Fits c (errands i) v.stand)
    (hvt : turn? v.stand = inTurnAt t x) (hcall : v.calling = false) :
    ∃ s', (s.IsOver → s'.IsOver) ∧ Tale c errands ready s' seen ⟨m, w.strands.set i v⟩ := by
  obtain ⟨hst, hfix, hstage, hflag, hiter, hverdict⟩ := (h.fits hi).turn (hc i) hp
  have ha := h.each hi
  rw [hst] at ha
  have hk := h.gate_of_step hi hp ht hvt
  have hfailing : w.memory.hasFailed t.iteration = w.memory.failing.get c.flag := by
    rw [Memory.hasFailed, hflag]
  have hshown := h.shown
  have same : s ≠ .busy i → m.isReady c.fixture c.stage = w.memory.isReady c.fixture c.stage →
      m.failing.get c.flag = w.memory.failing.get c.flag →
        s.Allows ((errands i).verdict c.fixture) i x →
      ∃ s', (s.IsOver → s'.IsOver) ∧ Tale c errands ready s' seen ⟨m, w.strands.set i v⟩ :=
        fun hb hr hf hal =>
    ⟨s, id, h.next hi hk ht.signals hfit (fun _ hj => hj) (hv ▸ hal) (hshown.set hb hr hf)⟩
  -- the owner has not called its hook yet
  have early : s = .busy i → (∀ {x b}, Busy c.stage i x b seen → x = .point q → seen = []) →
      (∀ {b}, b = false → Busy c.stage i x b []) → m = w.memory →
        s.Allows ((errands i).verdict c.fixture) i x →
      ∃ s', (s.IsOver → s'.IsOver) ∧ Tale c errands ready s' seen ⟨m, w.strands.set i v⟩ := by
    rintro rfl hseen hb rfl hal
    obtain ⟨hd, hr, hf, hbusy⟩ := hshown.owner hi hst
    obtain rfl := hseen hbusy rfl
    refine ⟨.busy i, id, h.next hi hk rfl hfit (fun _ hj => hj) (hv ▸ hal)
      (.of_owner hi hd hr hf ?_)⟩
    rw [hv]
    exact hb hcall
  cases ht with
  | enter hg =>
    cases s with
    | fresh =>
      obtain ⟨hd, hr, hf, rfl⟩ := hshown
      refine ⟨.busy i, id, h.next hi hk rfl hfit (fun hj hal => ?_) (by rw [hv]; exact .inl rfl)
        (.of_owner hi hd ((Memory.isReady_setGate ..).trans hr) hf
          (by rw [hv]; exact .checkFailed))⟩
      rw [hal.of_fresh]
      exact fun e => hj (Option.some.inj e).symm
    | busy k =>
      rw [hfix, hstage, h.active_of_busy hc] at hg
      cases hg
    | settled | failed k y =>
      exact same nofun (Memory.isReady_setGate ..) rfl (.inr ⟨ha, trivial⟩)
  | queue hg =>
    refine same (Story.not_busy ha) rfl rfl ⟨ha, ?_⟩
    rintro rfl
    rw [hfix, hstage, h.idle_of_fresh] at hg
    cases hg
  | wait => exact same (Story.not_busy ha.1) rfl rfl ha
  | foundIdle hg =>
    rw [hfix, hstage] at hg
    exact same (Story.not_busy ha.1) rfl rfl ⟨ha.1, h.over_of_idle hc hg ha.2⟩
  | giveUp hh =>
    refine same (Story.not_busy ha.1) rfl rfl
      (hshown.aborted (hfailing ▸ hh.resolve_right fun hi => ?_) ha.1 _)
    exact Bool.noConfusion ((h.calm i).symm.trans (hiter ▸ hi))
  | join hf =>
    obtain rfl := hshown.settled (hfailing ▸ hf) ha.2
    exact same nofun rfl rfl rfl
  | foundFailed hf =>
    exact same (Story.not_busy ha.1) rfl rfl (hshown.aborted (hfailing ▸ hf) ha.1 _)
  | abort hf =>
    rcases ha with rfl | ⟨ho, hs⟩
    · obtain ⟨k, y, hs⟩ := hshown.failing.mp (hfailing ▸ hf)
      cases hs
    · exact same (Story.not_busy ho) rfl rfl (hshown.aborted (hfailing ▸ hf) ho _)
  | proceed hf =>
    rcases ha with hs | ⟨ho, hs⟩
    · exact early hs (fun hb hx => by cases hb <;> first | rfl | cases hx)
        (fun _ => .checkReady) rfl (.inl hs)
    · exact same (Story.not_busy ho) rfl rfl (.inr (hshown.settled (hfailing ▸ hf) hs))
  | settled hs =>
    rw [hfix, hstage] at hs
    rcases ha with rfl | rfl
    · exact absurd (hshown.2.1.symm.trans hs) hshown.1
    · exact same nofun rfl rfl rfl
  | due hs =>
    rw [hfix, hstage] at hs
    rcases ha with hb | rfl
    · refine early hb (fun hb hx => by cases hb <;> first | rfl | cases hx) (fun hb => ?_) rfl hb
      rw [hb]
      exact .due
    · exact absurd hshown.1 hs
  | returned | mishap => exact absurd rfl hq
  | @condemn y =>
    obtain rfl : s = .busy i := ha
    obtain ⟨hd, hr, hf, hbusy⟩ := hshown.owner hi hst
    cases hbusy with
    | mishap =>
      refine ⟨.failed i y, fun _ => trivial, h.next hi hk rfl hfit
        (fun hj hal => hal.of_busy hj (fun e => hj (Option.some.inj e).symm) nofun)
        (by rw [hv, hverdict]; exact .inl ⟨rfl, rfl⟩) ⟨hd, hr, ?_, rfl⟩⟩
      rw [← hflag]
      exact Memory.hasFailed_setFailed_self ..
  | commit =>
    obtain rfl : s = .busy i := ha
    obtain ⟨hd, hr, hf, hbusy⟩ := hshown.owner hi hst
    cases hbusy with
    | @returned n =>
      refine ⟨.settled, fun _ => trivial,
        h.next hi hk rfl hfit (fun hj hal => hal.of_busy hj nofun nofun)
        (by rw [hv]; exact rfl) ⟨?_, hf, .inr ⟨hd, i, n, rfl⟩⟩⟩
      rw [Matter.IsSettled, ← hfix, ← hstage, Memory.isReady_setReady, if_pos rfl]
  | leave =>
    have hs : s ≠ .busy i := by
      rintro rfl
      exact ha
    exact same hs (Memory.isReady_setGate ..) rfl ha

/-- The owner calls its hook, or the hook comes back. -/
theorem Tale.played (h : Tale c errands ready s seen w) (hi : w.strands[i]? = some ⟨.point p, b⟩)
    {t : Turn} {q : Turn.Point} (hp : p.turn? = some (t, .hook)) (hv : turn? v.stand = some (t, q))
    (hq : q.isOwner = true) (hfit : Fits c (errands i) v.stand)
    (ha : (Story.busy i).Allows ((errands i).verdict c.fixture) i (stance v.stand))
    (hb : Busy c.stage i (.point .hook) b seen → Busy c.stage i (stance v.stand) v.calling seen') :
    Tale c errands ready s seen' ⟨w.memory, w.strands.set i v⟩ := by
  have hst := stance_of_turn hp
  obtain rfl : s = .busy i := by
    have ha := h.each hi
    rw [hst] at ha
    exact ha
  obtain ⟨hd, hr, hf, hbusy⟩ := h.shown.owner hi hst
  refine h.next hi ?_ rfl hfit (fun _ hj => hj) ha (.of_owner hi hd hr hf (hb hbusy))
  rw [owns_of_turn hv, owns_of_turn (u := .point p) hp, Turn.owns, Turn.owns, hq]
  rfl

theorem Tale.aside (h : Tale c errands ready s seen w) (hi : w.strands[i]? = some u)
    (hx : m.fixtures = w.memory.fixtures) (hf : m.failing = w.memory.failing)
    (hs : m.signals = w.memory.signals) (hu : owns c.fixture c.stage u.stand = false)
    (hv : owns c.fixture c.stage v.stand = false) (hfit : Fits c (errands i) v.stand)
    (hb : s ≠ .busy i) (ha : s.Allows ((errands i).verdict c.fixture) i (stance v.stand)) :
    Tale c errands ready s seen ⟨m, w.strands.set i v⟩ := by
  refine h.next hi ?_ hs hfit (fun _ hj => hj) ha (h.shown.set hb ?_ (by rw [hf]))
  · rw [hu, hv, Memory.gate, Memory.fixture, hx]
    rfl
  · rw [Memory.isReady, Memory.fixture, hx]
    rfl

/-! ### The site of a release -/

def isClearing (x : Stand Point Unit) : Bool :=
  x.isAt fun
    | .release _ (.clearing _ p) => p.isInside
    | _ => false

def HasCleared (e : Errand) : Stand Point Unit → Prop
  | .point (.release _ (.clearing _ .leave)) => True
  | .point _ => False
  | .ended r => (∃ a, e = .release a) ∧ r.isCrash = false

/-- While there are releases, the fixture is live at the site until the cleanup is over and the
first of them has cleared it. -/
structure Shelved (c : Matter) (errands : Nat → Errand) (s : Story) (w : Pool Point Unit) :
    Prop where
  inside : Kept (w.memory.isEntered c.site) isClearing w.strands
  live : w.memory.live? c.site = some c.fixture ∨ w.memory.live? c.site = none ∧ s.IsOver
  cleared : ∀ {j u}, w.strands[j]? = some u → HasCleared (errands j) u.stand →
    w.memory.live? c.site = none

theorem Shelved.set (h : Shelved c errands s w) (hi : w.strands[i]? = some u)
    (hs : s.IsOver → s'.IsOver) (hm : m.slots = w.memory.slots)
    (hk : isClearing v.stand = isClearing u.stand) (hv : HasCleared (errands i) v.stand →
      HasCleared (errands i) u.stand) :
    Shelved c errands s' ⟨m, w.strands.set i v⟩ := by
  have hl : m.live? c.site = w.memory.live? c.site := by rw [Memory.live?, hm]; rfl
  have he : m.isEntered c.site = w.memory.isEntered c.site := by rw [Memory.isEntered, hm]; rfl
  refine ⟨he ▸ h.inside.still hi hk, hl ▸ h.live.imp_right (And.imp_right hs), ?_⟩
  intro j x hj hx
  rw [hl]
  rcases getElem?_set_eq_some hj with ⟨rfl, rfl⟩ | ⟨_, hj⟩
  · exact h.cleared hi (hv hx)
  · exact h.cleared hj hx

theorem Shelved.clear (h : Shelved c errands s w) (hs : s.IsOver) {a : Release} {o : Outcome Unit}
    {q : Clear.Point} (hi : w.strands[i]? = some ⟨.point (.release a (.clearing o q)), b⟩)
    (ha : a.site = c.site) {x : Stand Clear.Point Unit} (hq : a.clear.Step w.memory q m x)
    (hv : v.stand = x.andThen (fun q => .release a (.clearing o q)) fun _ => .ended o) :
    Shelved c errands s ⟨m, w.strands.set i v⟩ := by
  have hsite : a.clear.site = c.site := ha
  have inside : ∀ e : Bool, m.isEntered c.site = e →
      e.toNat + q.isInside.toNat = (w.memory.isEntered c.site).toNat +
        (x.isAt Clear.Point.isInside).toNat →
      Kept (m.isEntered c.site) isClearing (w.strands.set i v) := by
    intro e he hn
    refine h.inside.set hi ?_
    have hx : isClearing v.stand = x.isAt Clear.Point.isInside := by
      rw [hv]
      cases x <;> rfl
    rw [hx, he]
    exact hn
  have cleared : (m.live? c.site = none ∨ (HasCleared (errands i) v.stand → q = .leave)) →
      (w.memory.live? c.site = none → m.live? c.site = none) →
      ∀ {j u}, (w.strands.set i v)[j]? = some u → HasCleared (errands j) u.stand →
        m.live? c.site = none := by
    intro hn hm j u hj hu
    rcases hn with hn | hn
    · exact hn
    · refine hm ?_
      rcases getElem?_set_eq_some hj with ⟨rfl, rfl⟩ | ⟨_, hj⟩
      · obtain rfl := hn hu
        exact h.cleared hi trivial
      · exact h.cleared hj hu
  cases hq with
  | enter he =>
    rw [hsite] at he inside cleared ⊢
    have hl := Memory.live?_setEntered w.memory c.site c.site true
    refine ⟨inside true (by simp [Memory.isEntered_setEntered]) (by rw [he]; rfl), ?_,
      cleared (.inr fun hc => ?_) (fun e => hl.trans e)⟩
    · exact h.live.imp (fun e => hl.trans e) fun e => ⟨hl.trans e.1, e.2⟩
    · rw [hv] at hc
      exact hc.elim
  | store =>
    rw [hsite] at inside cleared ⊢
    have hl : (w.memory.clear c.site).live? c.site = none := by rw [Memory.live?_clear, if_pos rfl]
    exact ⟨inside _ (Memory.isEntered_clear ..) rfl, .inr ⟨hl, hs⟩, cleared (.inl hl) fun _ => hl⟩
  | leave =>
    rw [hsite] at inside cleared ⊢
    have he : w.memory.isEntered c.site = true := h.inside.taken_of hi rfl
    have hl := Memory.live?_setEntered w.memory c.site c.site false
    refine ⟨inside false (by simp [Memory.isEntered_setEntered]) (by rw [he]; rfl), ?_,
      cleared (.inr fun _ => rfl) (fun e => hl.trans e)⟩
    exact h.live.imp (fun e => hl.trans e) fun e => ⟨hl.trans e.1, e.2⟩

end

/-! ### Steps and runs -/

section
variable {c : Matter} {e : Errand} {p : Point} {t : Turn} {q r : Turn.Point}

theorem Fits.goTo (h : Fits c e (.point p)) (hp : p.turn? = some (t, q)) :
    Fits c e (.point (p.goTo r)) := by
  cases p with
  | turn t' q' => exact h
  | release a q' =>
    cases q' with
    | cleaning f q' => exact h
    | look | checkFailed | clearing => cases hp

theorem isClearing_goTo (hp : p.turn? = some (t, q)) :
    isClearing (.point (p.goTo r)) = isClearing (.point p) := by
  cases p with
  | turn t' q' => rfl
  | release a q' =>
    cases q' with
    | cleaning f q' => rfl
    | look | checkFailed | clearing => cases hp

theorem not_cleared_goTo (hp : p.turn? = some (t, q)) : ¬ HasCleared e (.point (p.goTo r)) := by
  cases p with
  | turn t' q' => exact id
  | release a q' =>
    cases q' with
    | cleaning f q' => exact id
    | look | checkFailed | clearing => cases hp

end

section
variable {n : Nat} {c : Matter} {errands : Nat → Errand} {others : Memory → Memory → Prop}
  {ready : Bool} {s : Story} {seen : List (Nat × Hook × Option Reply)}
  {h es : List (Pool.Entry Point)} {w w' : Pool Point Unit} {m : Memory} {i : Nat} {p : Point}
  {b : Bool} {v : Strand Point Unit}

theorem Tale.act (ht : Tale c errands ready s seen w) (hc : ∀ j, c.Covers (errands j))
    (hsh : (∃ i a, errands i = .release a) → Shelved c errands s w)
    (hi : w.strands[i]? = some ⟨.point p, b⟩) (hp : Step w.memory p m v.stand)
    (hq : ∀ t, p.turn? ≠ some (t, .hook)) (hcall : v.calling = false) :
    ∃ s', Tale c errands ready s' seen ⟨m, w.strands.set i v⟩ ∧
      ((∃ i a, errands i = .release a) → Shelved c errands s' ⟨m, w.strands.set i v⟩) := by
  obtain ⟨x, _⟩ := v
  cases hcall
  have hfit := ht.fits hi
  have hal := ht.each hi
  cases hp with
  | @turn t _ q _ hx =>
    obtain ⟨s', hs, ht'⟩ :=
      ht.turn (v := ⟨.point (.turn t q), false⟩) hc hi rfl hx (fun e => hq t (by rw [e]; rfl))
      rfl hfit rfl rfl
    exact ⟨s', ht', fun hr => (hsh hr).set hi hs hx.slots rfl id⟩
  | @turned t _ _ r hx =>
    obtain ⟨s', hs, ht'⟩ :=
      ht.turn (v := ⟨.ended r, false⟩) hc hi rfl hx (fun e => hq t (by rw [e]; rfl))
      rfl trivial rfl rfl
    refine ⟨s', ht', fun hr => (hsh hr).set hi hs hx.slots rfl ?_⟩
    rintro ⟨⟨a, ha⟩, _⟩
    cases hfit.symm.trans ha
  | @release a p q m hx =>
    have he := hfit.release
    have hr : ∃ i a, errands i = .release a := ⟨i, a, he⟩
    have hcov := hc i
    rw [he] at hcov
    have hsite : a.site = c.site := hcov.1
    have hflag : a.iteration.trial = c.flag := hcov.2.2
    have hshelf := hsh hr
    cases hx with
    | @found f hl =>
      have hf : f = c.fixture := by
        rcases hshelf.live with hl' | ⟨hl', _⟩
        · exact Option.some.inj (hl.symm.trans (hsite ▸ hl'))
        · cases hl.symm.trans (hsite ▸ hl')
      have ho : owns c.fixture c.stage (.point (.release a (.cleaning f .enter))) = false := by
        rw [owns_of_turn (u := .point (.release a (.cleaning f .enter))) rfl]
        simp [Turn.owns, Turn.Point.isOwner]
      exact ⟨s, ht.aside hi rfl rfl rfl rfl ho ⟨he, hf⟩ (Story.not_busy hal) hal,
        fun _ => hshelf.set hi id rfl rfl fun hx => hx.elim⟩
    | vacant hl =>
      have hover : s.IsOver := by
        rcases hshelf.live with hl' | ⟨_, hs⟩
        · cases hl.symm.trans (hsite ▸ hl')
        · exact hs
      exact ⟨s, ht.aside hi rfl rfl rfl rfl rfl he (Story.not_busy hal) ⟨hal, hover⟩,
        fun _ => hshelf.set hi id rfl rfl fun hx => hx.elim⟩
    | @cleaning f p q _ hx =>
      obtain ⟨s', hs, ht'⟩ :=
        ht.turn (v := ⟨.point (.release a (.cleaning f q)), false⟩) hc hi rfl hx
        (fun e => hq (a.turn f) (by rw [e]; rfl)) rfl hfit rfl rfl
      exact ⟨s', ht', fun _ => hshelf.set hi hs hx.slots rfl fun hx => hx.elim⟩
    | @cleaned f p _ r hx hr =>
      obtain ⟨s', hs, ht'⟩ :=
        ht.turn (v := ⟨.point (.release a (.clearing r .enter)), false⟩) hc hi rfl hx
        (fun e => hq (a.turn f) (by rw [e]; rfl)) rfl he rfl rfl
      exact ⟨s', ht', fun _ => hshelf.set hi hs hx.slots rfl fun hx => hx.elim⟩
    | abort hf =>
      rw [Memory.hasFailed, hflag] at hf
      exact ⟨s, ht.aside hi rfl rfl rfl rfl rfl he (Story.not_busy hal.1)
        (ht.shown.aborted hf hal.1 _), fun _ => hshelf.set hi id rfl rfl fun hx => hx.elim⟩
    | proceed hf =>
      rw [Memory.hasFailed, hflag] at hf
      obtain rfl := ht.shown.settled hf hal.2
      exact ⟨_, ht.aside hi rfl rfl rfl rfl rfl he (Story.not_busy hal.1) rfl,
        fun _ => hshelf.set hi id rfl rfl fun hx => hx.elim⟩
    | @clearing o p q _ hx =>
      have hover : s.IsOver := Story.Answers.isOver hal
      have hm : m.fixtures = w.memory.fixtures ∧ m.failing = w.memory.failing ∧
          m.signals = w.memory.signals := by
        cases hx <;> exact ⟨rfl, rfl, rfl⟩
      exact ⟨s, ht.aside hi hm.1 hm.2.1 hm.2.2 rfl rfl he (hover.not_busy i) hal,
        fun _ => hshelf.clear hover hi hsite hx rfl⟩
  | @released a p m r hx =>
    have he := hfit.release
    have hr : ∃ i a, errands i = .release a := ⟨i, a, he⟩
    have hcov := hc i
    rw [he] at hcov
    have hshelf := hsh hr
    cases hx with
    | @crashed f _ _ text hx =>
      obtain ⟨s', hs, ht'⟩ := ht.turn (v := ⟨.ended (.crashed text), false⟩) hc hi rfl hx
        (fun e => hq (a.turn f) (by rw [e]; rfl)) rfl trivial rfl rfl
      exact ⟨s', ht', fun _ => hshelf.set hi hs hx.slots rfl fun hcl => Bool.noConfusion hcl.2⟩
    | @cleared _ o p _ hx =>
      have hover : s.IsOver := Story.Answers.isOver hal
      have hm : m.fixtures = w.memory.fixtures ∧ m.failing = w.memory.failing ∧
          m.signals = w.memory.signals := by
        cases hx
        exact ⟨rfl, rfl, rfl⟩
      exact ⟨s, ht.aside hi hm.1 hm.2.1 hm.2.2 rfl rfl trivial (hover.not_busy i) hal,
        fun _ => hshelf.clear hover hi hcov.1 hx rfl⟩

theorem Tale.step (ht : Tale c errands ready s seen w) (hc : ∀ j, c.Covers (errands j))
    (hsh : (∃ i a, errands i = .release a) → Shelved c errands s w)
    (ho : ∀ m m', others m m' → c.Spared errands m m') (hch : Changed (company others) w es w') :
    ∃ s', Tale c errands ready s' (seen ++ hooks es) w' ∧
      ((∃ i a, errands i = .release a) → Shelved c errands s' w') := by
  cases hch with
  | @others m hm =>
    have hsp := ho _ _ hm
    rw [hooks_nil, List.append_nil]
    refine ⟨s, ⟨?_, fun j => (hsp.interrupted j).trans (ht.calm j), ht.fits, ht.each,
      ht.shown.congr hsp.ready hsp.failing fun _ _ => rfl⟩, fun hr => ?_⟩
    · rw [hsp.gate]
      exact ht.kept
    · have hl : m.live? c.site = w.memory.live? c.site := by rw [Memory.live?, hsp.slot]; rfl
      have he : m.isEntered c.site = w.memory.isEntered c.site := by
        rw [Memory.isEntered, hsp.slot]; rfl
      exact ⟨he ▸ (hsh hr).inside, hl ▸ (hsh hr).live,
        fun hj hx => hl.trans ((hsh hr).cleared hj hx)⟩
  | @step i now p b m es v hi ha =>
    have hfit := ht.fits hi
    have hal := ht.each hi
    cases ha with
    | @rest q k hv hq =>
      rcases step_eq_ask hv with ⟨t, _, hq', _⟩ | ⟨⟨t, p', hp⟩, _⟩
      · cases hq.symm.trans hq'
      · have hown : owns c.fixture c.stage (.point p) = false := by
          rw [owns_of_turn (u := .point p) hp]
          simp [Turn.owns, Turn.Point.isOwner]
        have hs : s.owner? ≠ some i := by
          rw [stance_of_turn hp] at hal
          cases p' <;> exact hal.1
        rw [hooks_eq_nil (by simp [Event.hook?, hq]), List.append_nil]
        exact ⟨s, ht.aside hi rfl rfl rfl hown hown hfit (Story.not_busy hs) hal,
          fun hr => (hsh hr).set hi id rfl rfl id⟩
    | act hq he hy =>
      rw [hooks_eq_nil he, List.append_nil]
      exact ht.act hc hsh hi (step_of_yields hy)
        (fun t ht => by cases hq.symm.trans (hook?_of_turn ht)) rfl
    | @call q k o hv hq hb =>
      rcases step_eq_ask hv with ⟨t, hp, hq', _⟩ | ⟨_, hq'⟩
      · cases hq.symm.trans hq'
        obtain ⟨hst, _, hstage, _⟩ := hfit.turn (hc i) hp
        have hal' :
            (Story.busy i).Allows ((errands i).verdict c.fixture) i (stance (.point p)) := by
          rw [hst]
          rfl
        refine ⟨s, ht.played hi hp hp rfl hfit hal' fun hbusy => ?_,
          fun hr => (hsh hr).set hi id rfl rfl id⟩
        rw [List.map_singleton, hooks_called p hq, hst, hstage]
        subst hb
        cases hbusy
        exact .running
      · cases hq.symm.trans hq'
    | @reply q k o r hv hq hb =>
      rcases step_eq_ask hv with ⟨t, hp, hq', rfl⟩ | ⟨_, hq'⟩
      · cases hq.symm.trans hq'
        obtain ⟨_, _, hstage, _⟩ := hfit.turn (hc i) hp
        have hp' := turn?_goTo (r := Turn.afterHook r) hp
        have hst' := stance_of_turn hp'
        have hal' : (Story.busy i).Allows ((errands i).verdict c.fixture) i
            (stance (.point (p.goTo (Turn.afterHook r)))) := by
          rw [hst']
          cases r <;> rfl
        refine ⟨s, ht.played hi hp hp' (by cases r <;> rfl) (hfit.goTo hp) hal' fun hbusy => ?_,
          fun hr => (hsh hr).set hi id rfl (isClearing_goTo hp) fun hx =>
            (not_cleared_goTo hp hx).elim⟩
        rw [List.map_singleton, hooks_answered p r hq, hst', hstage]
        subst hb
        cases hbusy
        cases r with
        | returned n => exact .returned
        | refused problem => exact .mishap (x := .refused problem)
        | crashed text => exact .mishap (x := .crashed text)
      · cases hq.symm.trans hq'

theorem fits_start (c : Matter) (e : Errand) : Fits c e (.point e.start) := by
  cases e <;> rfl

theorem stance_start (e : Errand) : stance (.point e.start) = .point .enter := by
  cases e <;> rfl

/-- What the errands of a pool start from: the trial does not fail, nothing is interrupted,
nobody is in the gate, and if there are releases, the fixture is live at their site and
nobody is in its section. -/
structure Matter.Opens (c : Matter) (errands : Nat → Errand) (m : Memory) : Prop where
  failing : m.failing.get c.flag = false
  interrupted : ∀ i, m.isInterrupted (errands i).iteration = false
  gate : m.gate c.fixture c.stage = .idle
  site : (∃ i a, errands i = .release a) → m.live? c.site = some c.fixture ∧
    m.isEntered c.site = false

theorem Matter.Opens.tale (hm : c.Opens errands m) :
    ∃ s, Tale c errands (m.isReady c.fixture c.stage) s []
      (gather n (fun i => (errands i).start) m) := by
  have hown : ∀ e : Errand, owns c.fixture c.stage (.point e.start) = false := by
    intro e
    cases e with
    | turn t =>
      rw [owns_of_turn (u := .point (start (.turn t))) rfl]
      simp [Turn.owns, Turn.Point.isOwner]
    | release a => rfl
  have tale : ∀ s : Story, s.owner? = none → s.Shows c (m.isReady c.fixture c.stage) []
        (gather n (fun i => (errands i).start) m) →
      Tale c errands (m.isReady c.fixture c.stage) s []
        (gather n (fun i => (errands i).start) m) := by
    intro s hs hshown
    refine ⟨?_, hm.interrupted, fun hj => ?_, fun hj => ?_, hshown⟩
    · change Kept (m.gate c.fixture c.stage).isActive _ _
      rw [hm.gate]
      refine .of_none fun u hu => ?_
      obtain ⟨j, hj⟩ := List.mem_iff_getElem?.mp hu
      rw [getElem?_gather hj]
      exact hown _
    · rw [getElem?_gather hj]
      exact fits_start c _
    · rw [getElem?_gather hj, stance_start]
      intro e
      cases hs.symm.trans e
  by_cases hs : c.IsSettled m
  · exact ⟨.settled, tale _ rfl ⟨hs, hm.failing, .inl ⟨hs, rfl⟩⟩⟩
  · exact ⟨.fresh, tale _ rfl ⟨hs, rfl, hm.failing, rfl⟩⟩

theorem Matter.Opens.shelved (hm : c.Opens errands m) (hr : ∃ i a, errands i = .release a)
    (s : Story) :
    Shelved c errands s (gather n (fun i => (errands i).start) m) where
  inside := by
    change Kept (m.isEntered c.site) _ _
    rw [(hm.site hr).2]
    refine .of_none fun u hu => ?_
    obtain ⟨j, hj⟩ := List.mem_iff_getElem?.mp hu
    rw [getElem?_gather hj]
    cases errands j <;> rfl
  live := .inl (hm.site hr).1
  cleared := by
    intro j u hj hu
    rw [getElem?_gather hj] at hu
    cases he : errands j <;> simp only [he, start] at hu <;> exact hu.elim

theorem tale_of_run {m₀ : Memory} (hc : ∀ j, c.Covers (errands j)) (hm : c.Opens errands m₀)
    (ho : ∀ m m', others m m' → c.Spared errands m m')
    (hr : Run (company others) (gather n (fun i => (errands i).start) m₀) h w) :
    ∃ s, Tale c errands (m₀.isReady c.fixture c.stage) s (hooks h) w ∧
      ((∃ i a, errands i = .release a) → Shelved c errands s w) := by
  refine hr.induct (P := fun h w => ∃ s,
    Tale c errands (m₀.isReady c.fixture c.stage) s (hooks h) w ∧
    ((∃ i a, errands i = .release a) → Shelved c errands s w)) ?_ ?_
  · obtain ⟨s, ht⟩ := hm.tale (n := n)
    exact ⟨s, ht, fun hr => hm.shelved hr s⟩
  · rintro h w es w' _ ⟨s, ht, hsh⟩ hch
    rw [hooks_append]
    exact ht.step hc hsh ho hch

/-- Whoever is in the section of the site or owns the gate can go on, and when both
are free so can anybody. -/
theorem Tale.onward (ht : Tale c errands ready s seen w) (hc : ∀ j, c.Covers (errands j))
    (hsh : (∃ i a, errands i = .release a) → Shelved c errands s w) (he : w.hasEnded = false) :
    ∃ (i : Nat) (p : Point) (b : Bool), w.strands[i]? = some ⟨.point p, b⟩ ∧
      (company others).move i 0 w.memory p ≠ .blocked ∧
        ∀ m q, ((company others).move i 0 w.memory p).Yields w.memory m (.point q) →
          q.rank < p.rank := by
  have release : ∀ {i : Nat} {a : Release} {q : Release.Point} {b : Bool},
      w.strands[i]? = some ⟨.point (.release a q), b⟩ → errands i = .release a ∧
        a.site = c.site := by
    intro i a q b hi
    have hrel := (ht.fits hi).release
    have hcov := hc i
    rw [hrel] at hcov
    exact ⟨hrel, hcov.1⟩
  by_cases hin : (∃ i a, errands i = .release a) ∧ w.memory.isEntered c.site = true
  · have hk := (hsh hin.1).inside
    rw [hin.2] at hk
    obtain ⟨i, ⟨x, b⟩, hi, hx⟩ := hk.exists_holder
    cases x with
    | ended r => cases hx
    | point p =>
      refine ⟨i, p, b, hi, fun hb => ?_, fun m q hy => descends (fun t p' hp => ?_) hy⟩
      · obtain ⟨a, o, rfl, _⟩ := of_blocked hb
        cases hx
      · cases p with
        | turn => cases hx
        | release a q =>
          cases q with
          | clearing => cases hp
          | look | cleaning | checkFailed => cases hx
  cases hg : w.memory.gate c.fixture c.stage with
  | active =>
    have hk := ht.kept
    rw [hg] at hk
    obtain ⟨i, ⟨x, b⟩, hi, hx⟩ := hk.exists_holder
    obtain ⟨⟨t, q⟩, hp, hq⟩ := (Option.any_eq_true _ _).mp hx
    cases x with
    | ended r => cases hp
    | point p =>
      refine ⟨i, p, b, hi, fun hb => ?_, fun m q' hy => descends (fun t' p' hp' => ?_) hy⟩
      · obtain ⟨a, o, rfl, _⟩ := of_blocked hb
        cases hp
      · cases hp.symm.trans hp'
        simp [Turn.owns, Turn.Point.isOwner] at hq
  | idle =>
    obtain ⟨i, p, b, hi⟩ := exists_point he
    refine ⟨i, p, b, hi, fun hb => ?_, fun m q hy => descends (fun t p' hp => ?_) hy⟩
    · obtain ⟨a, o, rfl, hent⟩ := of_blocked hb
      obtain ⟨hrel, hsite⟩ := release hi
      exact hin ⟨⟨i, a, hrel⟩, hsite ▸ hent⟩
    · obtain ⟨_, hf, hs, _⟩ := (ht.fits hi).turn (hc i) hp
      rw [hf, hs]
      exact hg

theorem Story.Shows.once (h : s.Shows c ready seen w) :
    seen.countP (fun e => e.2.2.isNone) ≤ 1 ∧ (ready = c.stage.isSetUp → seen = []) := by
  cases s with
  | fresh =>
    obtain ⟨_, _, _, rfl⟩ := h
    exact ⟨Nat.zero_le 1, fun _ => rfl⟩
  | busy i =>
    obtain ⟨hd, _, _, u, _, hb⟩ := h
    exact ⟨hb.once, fun hs => absurd hs hd⟩
  | settled =>
    obtain ⟨_, _, ⟨_, rfl⟩ | ⟨hd, i, v, rfl⟩⟩ := h
    · exact ⟨Nat.zero_le 1, fun _ => rfl⟩
    · exact ⟨Nat.le_refl 1, fun hs => absurd hs hd⟩
  | failed i x =>
    obtain ⟨hd, _, _, rfl⟩ := h
    exact ⟨Nat.le_refl 1, fun hs => absurd hs hd⟩

/-- What the errands agree on as soon as one of them is over: the level was settled before and no
hook ran, or one hook ran and succeeded, or one hook ran and went wrong. -/
inductive Conclusion (c : Matter) (errands : Nat → Errand) (m₀ : Memory)
    (seen : List (Nat × Hook × Option Reply)) (w : Pool Point Unit) : Prop where
  | settled (hs : c.IsSettled m₀) (hn : seen = []) (hr : c.IsSettled w.memory)
      (hall : ∀ {j r}, w.outcome? j = some r → r = .ok ())
  | succeeded {i v : Nat} (hs : ¬ c.IsSettled m₀) (hn : seen = ran c.stage i (.returned v))
      (hr : c.IsSettled w.memory) (hall : ∀ {j r}, w.outcome? j = some r → r = .ok ())
  | failed {i : Nat} {x : Mishap} (hs : ¬ c.IsSettled m₀) (hn : seen = ran c.stage i x.reply)
      (hr : w.memory.isReady c.fixture c.stage = m₀.isReady c.fixture c.stage)
      (hall : ∀ {j r}, w.outcome? j = some r →
        r = if j = i then (errands i).verdict c.fixture x else .failed .aborted)
      (hone : w.hasEnded = true → w.outcome? i = some ((errands i).verdict c.fixture x))

/-- What errands that ask for one stage, side by side, agree on. -/
structure Agreement (c : Matter) (errands : Nat → Errand) (others : Memory → Memory → Prop)
    (m₀ : Memory) (h : List (Pool.Entry Point)) (w : Pool Point Unit) : Prop where
  /-- The hook is called at most once, and not at all if the level is settled from the start. -/
  once : (hooks h).countP (fun e => e.2.2.isNone) ≤ 1 ∧ (c.IsSettled m₀ → hooks h = [])
  concluded : ∀ {j r}, w.outcome? j = some r → Conclusion c errands m₀ (hooks h) w
  idle : w.hasEnded = true → w.memory.gate c.fixture c.stage = .idle
  /-- A release that does not crash leaves an empty site. -/
  cleared : ∀ {j a r}, errands j = .release a → w.outcome? j = some r → r.isCrash = false →
    w.memory.live? c.site = none
  completes : ∃ steps, (w.play (company others) steps).2.hasEnded = true

theorem errands_agree {m₀ : Memory} (hc : ∀ j, c.Covers (errands j)) (hm : c.Opens errands m₀)
    (ho : ∀ m m', others m m' → c.Spared errands m m')
    (hr : Run (company others) (gather n (fun i => (errands i).start) m₀) h w) :
    Agreement c errands others m₀ h w := by
  obtain ⟨s, ht, hsh⟩ := tale_of_run hc hm ho hr
  have answers : ∀ {j r}, w.outcome? j = some r →
      s.Answers ((errands j).verdict c.fixture) j r := by
    intro j r hj
    obtain ⟨b, hj⟩ := outcome?_eq_some.mp hj
    exact ht.each hj
  have hshown := ht.shown
  constructor
  · exact hshown.once
  · intro j r hj
    cases s with
    | fresh | busy => exact (answers hj).elim
    | settled =>
      obtain ⟨hset, _, ⟨hd, hseen⟩ | ⟨hd, i, v, hseen⟩⟩ := hshown
      · exact .settled hd hseen hset fun hj => answers hj
      · exact .succeeded hd hseen hset fun hj => answers hj
    | failed i x =>
      obtain ⟨hd, hready, _, hseen⟩ := hshown
      have hall : ∀ {j r}, w.outcome? j = some r →
          r = if j = i then (errands i).verdict c.fixture x else .failed .aborted := by
        intro j r hj
        rcases answers hj with ⟨rfl, rfl⟩ | ⟨hji, rfl⟩
        · rw [if_pos rfl]
        · rw [if_neg hji]
      refine .failed hd hseen hready hall fun hend => ?_
      have hlt : i < w.strands.length :=
        hr.lt_of_mem (x := (.stage c.stage, none)) (by rw [hseen]; exact List.mem_cons_self)
      obtain ⟨r, hi⟩ := exists_outcome hend hlt
      rw [hi, hall hi, if_pos rfl]
  · intro hend
    cases hg : w.memory.gate c.fixture c.stage with
    | idle => rfl
    | active =>
      have hk := ht.kept
      rw [hg] at hk
      obtain ⟨i, ⟨x, b⟩, hi, hx⟩ := hk.exists_holder
      cases x with
      | ended r => cases hx
      | point p => exact Bool.noConfusion ((not_ended hi).symm.trans hend)
  · intro j a r ha hj hcrash
    obtain ⟨b, hj⟩ := outcome?_eq_some.mp hj
    exact (hsh ⟨j, a, ha⟩).cleared hj ⟨⟨a, ha⟩, hcrash⟩
  · refine hr.finish Point.rank fun hr' he' => ?_
    obtain ⟨s, ht, hsh⟩ := tale_of_run hc hm ho hr'
    exact ht.onward hc hsh he'

def bothRelease (_ : Nat) : Errand := .release ⟨Execution.duet.iteration 0 0, Execution.duet.site⟩

theorem errands_agree_both :
    let m₀ := ({} : Memory).publish Execution.duet.site 5
    let run := (gather 2 (fun i => (bothRelease i).start) m₀).play (company fun m m' => m' = m)
      ((List.range 30).map fun k => (k / 15, k, .refused "no"))
    run.2.outcome? 0 = some (.failed (.tearDown "fixture" ⟨.trial, .tearDown⟩ "no")) ∧
      run.2.outcome? 1 = some (.failed .aborted) ∧ run.2.memory.gate 0 ⟨.trial, .tearDown⟩ = .idle ∧
      run.2.memory.live? Execution.duet.site = none := by
  intro m₀ run
  have hagree :
      Agreement ⟨0, ⟨.trial, .tearDown⟩, 0, Execution.duet.site⟩ bothRelease _ m₀ run.1 run.2 :=
    errands_agree (fun _ => ⟨rfl, rfl, rfl⟩) ⟨rfl, fun _ => rfl, rfl, fun _ => ⟨rfl, rfl⟩⟩
      (by rintro m _ rfl; exact ⟨rfl, rfl, rfl, fun _ => rfl, rfl⟩) (run_play ..)
  have h0 : run.2.outcome? 0 = some (.failed (.tearDown "fixture" ⟨.trial, .tearDown⟩ "no")) := by
    decide +kernel
  have hend : run.2.hasEnded = true := by decide +kernel
  refine ⟨h0, ?_, hagree.idle hend, hagree.cleared rfl h0 rfl⟩
  obtain ⟨r, h1⟩ := exists_outcome (i := 1) hend (by decide +kernel)
  cases hagree.concluded h0 with
  | settled _ _ _ hall | succeeded _ _ _ hall => cases hall h0
  | @failed i x _ _ _ hall _ =>
    have hi : i = 0 := by
      by_cases hi : 0 = i
      · exact hi.symm
      · have := hall h0
        rw [if_neg hi] at this
        cases this
    subst hi
    rw [h1, hall h1]
    rfl

end
end Errand
end LoadBench
