import LoadBench.Proofs.Calls
import LoadBench.Proofs.Descent
import LoadBench.Proofs.Pool

/-!
# Errands

What is done to a published fixture: somebody takes a turn at one of its stages, or releases its
site, which includes a turn at the teardown of the trial level. Errands are taken side by side, in
a pool; the points of an errand carry what it is about. For each errand it matters which turn
it is in, if any (`Point.turn?`): that tells which gate it owns and which hook it calls.
-/

namespace LoadBench

/-! ### A turn and its gate -/

namespace Turn

def owns (t : Turn) (f : Nat) (s : Stage) (p : Point) : Bool :=
  decide (f = t.fixture ∧ s = t.stage) && p.isOwner

variable {t : Turn} {m m' : Memory} {p q : Point} {u : Stand Point Unit}

theorem Step.gate (h : t.Step m p m' u) (f : Nat) (s : Stage)
    (ho : t.owns f s p = true → (m.gate f s).isActive = true) :
    (m'.gate f s).isActive.toNat + (t.owns f s p).toNat =
      (m.gate f s).isActive.toNat + (u.isAt (t.owns f s)).toNat := by
  have still : m'.gate f s = m.gate f s → u.isAt (t.owns f s) = t.owns f s p →
      (m'.gate f s).isActive.toNat + (t.owns f s p).toNat =
        (m.gate f s).isActive.toNat + (u.isAt (t.owns f s)).toNat := fun hg hu => by rw [hg, hu]
  have set : ∀ g, (m.setGate t.fixture t.stage g).gate f s =
      if f = t.fixture ∧ s = t.stage then g else m.gate f s := by
    intro g
    by_cases hf : f = t.fixture
    · subst hf
      simp [Memory.gate_setGate]
    · rw [if_neg fun e => hf e.1, Memory.gate, Memory.fixture_setGate_ne _ _ _ hf]
      rfl
  cases h with
  | enter hg =>
    rw [set]
    by_cases hfs : f = t.fixture ∧ s = t.stage
    · obtain ⟨rfl, rfl⟩ := hfs
      simp [hg, owns, Point.isOwner]
    · simp [hfs, owns, -not_and]
  | leave =>
    rw [set]
    by_cases hfs : f = t.fixture ∧ s = t.stage
    · obtain ⟨rfl, rfl⟩ := hfs
      simp [ho (by simp [owns, Point.isOwner]), owns, Point.isOwner]
    · simp [hfs, owns, -not_and]
  | commit => exact still (Memory.gate_setReady ..) rfl
  | _ => exact still rfl (by simp [owns, Point.isOwner])

theorem Step.isReady (h : t.Step m p m' u) (hp : p ≠ .commit) (f : Nat) (s : Stage) :
    m'.isReady f s = m.isReady f s := by
  cases h with
  | enter | leave => exact Memory.isReady_setGate ..
  | commit => exact absurd rfl hp
  | _ => rfl

theorem Step.signals (h : t.Step m p m' u) : m'.signals = m.signals := by
  cases h <;> rfl

theorem Step.slots (h : t.Step m p m' u) : m'.slots = m.slots := by
  cases h <;> rfl

end Turn

inductive Errand where
  | turn (t : Turn)
  | release (a : Release)

namespace Errand

inductive Point where
  | turn (t : Turn) (p : Turn.Point)
  | release (a : Release) (p : Release.Point)

def start : Errand → Point
  | turn t => .turn t .enter
  | release a => .release a .look

def step (now : Nat) (m : Memory) : Point → Move Memory Point Unit
  | .turn t p => (t.step now m p).andThen (.turn t) .ended
  | .release a p => (a.step now m p).andThen (.release a) .ended

def company (others : Memory → Memory → Prop) : Company Point Unit where
  move _ now m p := step now m p
  others := others

def Point.turn? : Point → Option (Turn × Turn.Point)
  | turn t p => some (t, p)
  | release a (.cleaning f p) => some (a.turn f, p)
  | release _ _ => none

inductive Step (m : Memory) : Point → Memory → Stand Point Unit → Prop where
  | turn {t : Turn} {p q : Turn.Point} {m' : Memory} (h : t.Step m p m' (.point q)) :
      Step m (.turn t p) m' (.point (.turn t q))
  | turned {t : Turn} {p : Turn.Point} {m' : Memory} {r : Outcome Unit}
      (h : t.Step m p m' (.ended r)) : Step m (.turn t p) m' (.ended r)
  | release {a : Release} {p q : Release.Point} {m' : Memory} (h : a.Step m p m' (.point q)) :
      Step m (.release a p) m' (.point (.release a q))
  | released {a : Release} {p : Release.Point} {m' : Memory} {r : Outcome Unit}
      (h : a.Step m p m' (.ended r)) : Step m (.release a p) m' (.ended r)

variable {now : Nat} {m m' : Memory} {p : Point}

theorem step_of_yields {s : Stand Point Unit} (h : (step now m p).Yields m m' s) :
    Step m p m' s := by
  cases p with
  | turn t p =>
    obtain ⟨u, hu, rfl⟩ := Move.yields_andThen.mp h
    have hu := Turn.step_of_yields hu
    cases u with
    | point q => exact .turn hu
    | ended r => exact .turned hu
  | release a p =>
    obtain ⟨u, hu, rfl⟩ := Move.yields_andThen.mp h
    have hu := Release.step_of_yields hu
    cases u with
    | point q => exact .release hu
    | ended r => exact .released hu

def Point.goTo : Point → Turn.Point → Point
  | turn t _, q => turn t q
  | release a (.cleaning f _), q => release a (.cleaning f q)
  | p, _ => p

theorem step_eq_ask {q : Request} {k : Reply → Stand Point Unit} (h : step now m p = .ask q k) :
    (∃ t, p.turn? = some (t, .hook) ∧ q.hook? = some (.stage t.stage) ∧
      k = fun r => .point (p.goTo (Turn.afterHook r))) ∨
      (∃ t p', p.turn? = some (t, .queued p')) ∧ q.hook? = none := by
  cases p with
  | turn t p =>
    obtain ⟨k', hk, rfl⟩ := Move.andThen_eq_ask h
    rcases Turn.step_eq_ask hk with ⟨rfl, rfl, rfl⟩ | ⟨⟨p', rfl⟩, d, rfl⟩
    · exact .inl ⟨t, rfl, rfl, rfl⟩
    · exact .inr ⟨⟨t, p', rfl⟩, rfl⟩
  | release a p =>
    obtain ⟨k', hk, rfl⟩ := Move.andThen_eq_ask h
    rcases Release.step_eq_ask hk with ⟨f, rfl, rfl, rfl⟩ | ⟨⟨f, p', rfl⟩, d, rfl⟩
    · exact .inl ⟨a.turn f, rfl, rfl, rfl⟩
    · exact .inr ⟨⟨a.turn f, p', rfl⟩, rfl⟩

theorem hook?_of_turn {t : Turn} (hp : p.turn? = some (t, .hook)) :
    (step now m p).hook? = some (.stage t.stage) := by
  cases p with
  | turn t' p' => cases hp; rfl
  | release a p' =>
    cases p' with
    | cleaning f p' => cases hp; rfl
    | look | checkFailed | clearing => cases hp

theorem turn?_goTo {t : Turn} {q r : Turn.Point} (hp : p.turn? = some (t, q)) :
    (p.goTo r).turn? = some (t, r) := by
  cases p with
  | turn t' p' => cases hp; rfl
  | release a p' =>
    cases p' with
    | cleaning f p' => cases hp; rfl
    | look | checkFailed | clearing => cases hp

def turn? : Stand Point Unit → Option (Turn × Turn.Point)
  | .point p => p.turn?
  | .ended _ => none

def owns (f : Nat) (s : Stage) (u : Stand Point Unit) : Bool :=
  (turn? u).any fun x => x.1.owns f s x.2

theorem owns_of_turn {u : Stand Point Unit} {t : Turn} {q : Turn.Point} (hu : turn? u = some (t, q))
    (f : Nat) (s : Stage) : owns f s u = t.owns f s q := by
  unfold owns
  rw [hu]
  rfl

theorem owns_of_none {u : Stand Point Unit} (hu : turn? u = none) (f : Nat) (s : Stage) :
    owns f s u = false := by
  unfold owns
  rw [hu]
  rfl

def inTurnAt (t : Turn) : Stand Turn.Point Unit → Option (Turn × Turn.Point)
  | .point q => some (t, q)
  | .ended _ => none

/-- What a step is for the fixtures: the turn goes on or ends, or an errand outside of turns touches
none of them and may begin the turn of a release. -/
theorem Step.view {m m' : Memory} {p : Point} {u : Stand Point Unit} (h : Step m p m' u) :
    (∃ t q v, p.turn? = some (t, q) ∧ t.Step m q m' v ∧ turn? u = inTurnAt t v) ∨
      p.turn? = none ∧ m'.fixtures = m.fixtures ∧
        (turn? u = none ∨ ∃ t, t.stage = ⟨.trial, .tearDown⟩ ∧ turn? u = some (t, .enter)) := by
  cases h with
  | turn h | turned h => exact .inl ⟨_, _, _, rfl, h, rfl⟩
  | release h =>
    cases h with
    | found => exact .inr ⟨rfl, rfl, .inr ⟨_, rfl, rfl⟩⟩
    | vacant | abort | proceed => exact .inr ⟨rfl, rfl, .inl rfl⟩
    | cleaning h | cleaned h => exact .inl ⟨_, _, _, rfl, h, rfl⟩
    | clearing h => exact .inr ⟨rfl, by cases h <;> rfl, .inl rfl⟩
  | released h =>
    cases h with
    | crashed h => exact .inl ⟨_, _, _, rfl, h, rfl⟩
    | cleared h =>
      cases h
      exact .inr ⟨rfl, rfl, .inl rfl⟩

/-- How far an errand has to go once the gates that it waits for are idle. -/
def Point.rank : Point → Nat
  | .turn _ p => p.rank Wait.Point.untilFree
  | .release _ p => p.rank Wait.Point.untilFree

/-- An errand goes down in rank, unless it is queued at a gate that is active. -/
theorem descends {q : Point} (hw : ∀ t p', p.turn? = some (t, .queued p') →
    m.gate t.fixture t.stage = .idle)
    (h : (step now m p).Yields m m' (.point q)) : q.rank < p.rank := by
  have free : ∀ (t : Turn) {p' q' : Wait.Point} {m' : Memory}, m.gate t.fixture t.stage = .idle →
      (t.idling.wait.step now m p').Yields m m' (.point q') → q'.untilFree < p'.untilFree := by
    intro t p' q' m' hg hy
    refine Wait.descends_of_free (fun _ => ?_) hy
    change (m.gate t.fixture t.stage).isActive = false
    rw [hg]
    rfl
  cases p with
  | turn t p =>
    obtain ⟨u, hu, hq⟩ := Move.yields_andThen.mp h
    cases u with
    | ended r => cases hq
    | point u =>
      cases hq
      exact Turn.descends Wait.Point.untilFree_le (fun hp => free t (hw t _ (by rw [hp]; rfl))) hu
  | release a p =>
    obtain ⟨u, hu, hq⟩ := Move.yields_andThen.mp h
    cases u with
    | ended r => cases hq
    | point u =>
      cases hq
      exact Release.descends Wait.Point.untilFree_le
        (fun {f _ _} hp => free (a.turn f) (hw (a.turn f) _ (by rw [hp]; rfl))) hu

theorem of_blocked (h : step now m p = .blocked) :
    ∃ a o, p = .release a (.clearing o .enter) ∧ m.isEntered a.site = true := by
  cases p with
  | turn t p =>
    cases hv : t.step now m p with
    | blocked => exact absurd hv Turn.not_blocked
    | act | ask => simp [step, hv] at h
  | release a p =>
    cases hv : a.step now m p with
    | blocked =>
      obtain ⟨⟨o, rfl⟩, he⟩ := Release.of_blocked hv
      exact ⟨a, o, rfl, he⟩
    | act | ask => simp [step, hv] at h

end Errand
end LoadBench
