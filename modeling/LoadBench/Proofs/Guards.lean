import LoadBench.Proofs.Alternation
import LoadBench.Proofs.Operation
import LoadBench.Proofs.Tenure
import Mathlib.Data.List.ModifyLast

/-!
# Guards

Who owns a gate, when everything that threads do goes on side by side: operations of all kinds, and
keepers, who enter a gate and stay there for as long as they like. An operation from inside a hook
or a sleep is one more operation. A gate is active as long as somebody owns it, and never do two;
only the owner leaves it. Every turn that has entered its gate discharges what an owner owes
(`gates_are_guarded`).
-/

namespace LoadBench
open Pool
open Errand (inTurnAt isPastLook due_of_step)

/-! ### Turns of operations -/

def Stand.find {σ α β : Type} (u : Stand σ α) (g : σ → Option β) : Option β :=
  match u with
  | .point p => g p
  | .ended _ => none

def Release.turnAt (a : Release) : Release.Point → Option (Turn × Turn.Point)
  | .cleaning f p => some (a.turn f, p)
  | _ => none

def Pass.turnAt (a : Pass) : Pass.Point → Option (Turn × Turn.Point)
  | .setUp f p => some (a.turn f ⟨.iteration, .setUp⟩, p)
  | .tearDown f _ p => some (a.turn f ⟨.iteration, .tearDown⟩, p)
  | .release _ p => a.giveBack.turnAt p
  | _ => none

def Operation.Point.turn? : Operation.Point → Option (Turn × Turn.Point)
  | .turn t p => some (t, p)
  | .release a p => a.turnAt p
  | .pass a p => a.turnAt p
  | _ => none

/-- Nobody gets at a gate but by entering and leaving it. -/
def Operation.Point.IsLawful : Operation.Point → Prop
  | .act (.gate ..) => False
  | _ => True

section
variable {now : Nat} {m m' : Memory} {b : Bool} {es : List Event} {t : Turn} {q : Turn.Point}

theorem Release.turn_of_advanced {a : Release} {p : Release.Point} {s : Strand Release.Point Unit}
    (h : Strand.Advanced (a.step now m) m ⟨.point p, b⟩ m' es s) (hp : a.turnAt p = some (t, q)) :
    ∃ u, Strand.Advanced (t.step now m) m ⟨.point q, b⟩ m' es ⟨u, s.calling⟩ ∧
      s.stand.find a.turnAt = inTurnAt t u := by
  cases p with
  | cleaning f p =>
    cases hp
    obtain ⟨u, c, hu, rfl⟩ := Journey.advanced_part (a.turn f).step (Point.cleaning f) h
      fun _ _ _ => rfl
    refine ⟨u, hu, ?_⟩
    cases u with
    | point q => rfl
    | ended r => cases r <;> rfl
  | look | checkFailed | clearing => cases hp

theorem Pass.turn_of_advanced {a : Pass} {p : Pass.Point} {s : Strand Pass.Point Report}
    (h : Strand.Advanced (a.step now m) m ⟨.point p, b⟩ m' es s) (hp : a.turnAt p = some (t, q)) :
    ∃ u, Strand.Advanced (t.step now m) m ⟨.point q, b⟩ m' es ⟨u, s.calling⟩ ∧
      s.stand.find a.turnAt = inTurnAt t u := by
  cases p with
  | setUp f p =>
    cases hp
    obtain ⟨u, c, hu, rfl⟩ :=
      Journey.advanced_part (a.turn f ⟨.iteration, .setUp⟩).step (Point.setUp f) h
      fun _ _ _ => rfl
    refine ⟨u, hu, ?_⟩
    cases u with
    | point q => rfl
    | ended r =>
      cases r with
      | ok v =>
        change a.turnAt (a.afterSetUp f) = none
        unfold afterSetUp
        split <;> rfl
      | failed e | crashed text => rfl
  | tearDown f r p =>
    cases hp
    obtain ⟨u, c, hu, rfl⟩ :=
      Journey.advanced_part (a.turn f ⟨.iteration, .tearDown⟩).step (Point.tearDown f r) h
      fun _ _ _ => rfl
    refine ⟨u, hu, ?_⟩
    cases u with
    | point q => rfl
    | ended o =>
      cases o with
      | ok v =>
        change a.turnAt (a.afterTearDown r) = none
        unfold afterTearDown
        split <;> rfl
      | failed e | crashed text => rfl
  | release r p =>
    obtain ⟨v, c, hv, rfl⟩ := Journey.advanced_part a.giveBack.step (Point.release r) h
      fun _ _ _ => rfl
    obtain ⟨u, hu, hvu⟩ := Release.turn_of_advanced hv hp
    refine ⟨u, hu, hvu.symm.trans ?_ |>.symm⟩
    cases v with
    | point q => rfl
    | ended o => cases o <;> rfl
  | _ => cases hp

/-- Where an operation is in a turn, its step is one of the turn. -/
theorem Operation.turn_of_advanced {p : Operation.Point}
    {s : Strand Operation.Point Operation.Result}
    (h : Strand.Advanced (Operation.step now m) m ⟨.point p, b⟩ m' es s)
    (hp : p.turn? = some (t, q)) :
    ∃ u, Strand.Advanced (t.step now m) m ⟨.point q, b⟩ m' es ⟨u, s.calling⟩ ∧
      s.stand.find Point.turn? = inTurnAt t u := by
  cases p with
  | turn t' p =>
    cases hp
    obtain ⟨u, c, hu, rfl⟩ := Journey.advanced_part t.step _ h fun _ _ _ => rfl
    exact ⟨u, hu, by cases u <;> rfl⟩
  | release a p =>
    obtain ⟨v, c, hv, rfl⟩ := Journey.advanced_part a.step _ h fun _ _ _ => rfl
    obtain ⟨u, hu, hvu⟩ := Release.turn_of_advanced hv hp
    exact ⟨u, hu, hvu ▸ by cases v <;> rfl⟩
  | pass a p =>
    obtain ⟨v, c, hv, rfl⟩ := Journey.advanced_part a.step _ h fun _ _ _ => rfl
    obtain ⟨u, hu, hvu⟩ := Pass.turn_of_advanced hv hp
    exact ⟨u, hu, hvu ▸ by cases v <;> rfl⟩
  | _ => cases hp

end

/-- No turn is going on, or one is about to begin. -/
def Begins (x : Option (Turn × Turn.Point)) : Prop := x = none ∨ ∃ t, x = some (t, .enter)

/-- Between turns an operation leaves every fixture alone that has been published, and may
come to its next turn. -/
structure Aside (f : Nat) (m m' : Memory) (next : Option (Turn × Turn.Point)) : Prop where
  fixture : f < m.published → m'.fixture f = m.fixture f
  published : m.published ≤ m'.published
  next : Begins next

section
variable {f now : Nat} {m m' : Memory} {x y : Option (Turn × Turn.Point)}

theorem Aside.of_eq (hf : m'.fixtures = m.fixtures) (hp : m'.published = m.published)
    (hx : Begins x) : Aside f m m' x := by
  refine ⟨fun _ => ?_, Nat.le_of_eq hp.symm, hx⟩
  rw [Memory.fixture, hf]
  rfl

theorem Aside.quiet (hf : m'.fixtures = m.fixtures) (hp : m'.published = m.published) :
    Aside f m m' none :=
  .of_eq hf hp (.inl rfl)

theorem Aside.leadingTo (h : Aside f m m' x) (hy : Begins y) : Aside f m m' y :=
  ⟨h.fixture, h.published, hy⟩

theorem Acquire.Step.leavesOpen {a : Acquire} {p : Acquire.Point} {u : Stand Acquire.Point Nat}
    (h : a.Step m p m' u) :
    Aside f m m' none := by
  cases h with
  | publish =>
    refine ⟨fun hf => ?_, Nat.le_succ _, .inl rfl⟩
    rw [Memory.fixture_publish, if_neg (Nat.ne_of_lt hf)]
  | _ => exact .quiet rfl rfl

theorem Release.Step.leavesOpen {a : Release} {p : Release.Point} {u : Stand Release.Point Unit}
    (h : a.Step m p m' u) (hp : a.turnAt p = none) : Aside f m m' (u.find a.turnAt) := by
  cases h with
  | found => exact .of_eq rfl rfl (.inr ⟨_, rfl⟩)
  | vacant | abort | proceed => exact .quiet rfl rfl
  | cleaning | cleaned | crashed => cases hp
  | clearing h | cleared h => cases h <;> exact .quiet rfl rfl

theorem begins_onward {a : Pass} {α : Type} {phase : Phase} {next : α → Pass.Point} {o : Outcome α}
    (hn : ∀ v, Begins (a.turnAt (next v))) : Begins ((Pass.onward phase next o).find a.turnAt) := by
  cases o with
  | ok v => exact hn v
  | failed e | crashed text => exact .inl rfl

theorem Pass.Step.leavesOpen {a : Pass} {p : Pass.Point} {u : Stand Pass.Point Report}
    (h : a.Step m p m' u) (hp : a.turnAt p = none) : Aside f m m' (u.find a.turnAt) := by
  cases h with
  | acquire h => exact h.leavesOpen
  | acquired h => exact h.leavesOpen.leadingTo (begins_onward fun _ => .inl rfl)
  | arrive h | depart h | notMet h => cases h <;> exact .quiet rfl rfl
  | arrived h => cases h <;> exact .of_eq rfl rfl (begins_onward fun _ => .inr ⟨_, rfl⟩)
  | met h =>
    cases h
    exact .of_eq rfl rfl (.inr ⟨_, rfl⟩)
  | force => exact .of_eq rfl rfl (.inr ⟨_, rfl⟩)
  | setUp | setUpDone | tearDown | tearDownDone => cases hp
  | measure h => cases h <;> exact .quiet rfl rfl
  | measured h => cases h <;> exact .of_eq rfl rfl (begins_onward fun _ => .inl rfl)
  | @noteStop f' ops r =>
    refine .of_eq rfl rfl (.inl ?_)
    change a.turnAt (a.afterMeasured f' ops r) = none
    unfold Pass.afterMeasured
    split <;> rfl
  | release h => exact h.leavesOpen hp
  | released h => exact (h.leavesOpen hp).leadingTo (begins_onward fun _ => .inl rfl)
  | _ => exact .quiet rfl rfl

theorem Operation.aside_of_yields {p : Operation.Point} {u : Stand Operation.Point Operation.Result}
    (h : (Operation.step now m p).Yields m m' u) (hp : p.turn? = none) (hl : p.IsLawful) :
    Aside f m m' (u.find Point.turn?) := by
  cases p with
  | turn t p => cases hp
  | acquire a p =>
    obtain ⟨v, hv, rfl⟩ := Move.yields_andThen.mp h
    exact (Acquire.step_of_yields hv).leavesOpen.leadingTo (.inl (by cases v <;> rfl))
  | release a p =>
    obtain ⟨v, hv, rfl⟩ := Move.yields_andThen.mp h
    have hv := (Release.step_of_yields hv).leavesOpen (f := f) hp
    cases v <;> exact hv
  | pass a p =>
    obtain ⟨v, hv, rfl⟩ := Move.yields_andThen.mp h
    have hv := (Pass.step_of_yields hv).leavesOpen (f := f) hp
    cases v <;> exact hv
  | idle i p =>
    obtain ⟨v, hv, rfl⟩ := Move.yields_andThen.mp h
    obtain rfl := Idling.memory_of_yields hv
    exact .of_eq rfl rfl (.inl (by cases v <;> rfl))
  | wait w p =>
    obtain ⟨v, hv, rfl⟩ := Move.yields_andThen.mp h
    obtain ⟨rfl, -⟩ := Wait.yields_cases hv
    exact .of_eq rfl rfl (.inl (by cases v <;> rfl))
  | arrive a p =>
    obtain ⟨v, hv, rfl⟩ := Move.yields_andThen.mp h
    cases Arrival.step_of_yields hv <;> exact .quiet rfl rfl
  | measure a p =>
    obtain ⟨v, hv, rfl⟩ := Move.yields_andThen.mp h
    cases Measurement.step_of_yields hv <;> exact .quiet rfl rfl
  | conduct c p =>
    obtain ⟨v, hv, rfl⟩ := Move.yields_andThen.mp h
    cases Conductor.step_of_yields hv <;> exact .quiet rfl rfl
  | clear c p =>
    obtain ⟨v, hv, rfl⟩ := Move.yields_andThen.mp h
    cases Clear.step_of_yields hv <;> exact .quiet rfl rfl
  | act d =>
    obtain ⟨rfl, rfl⟩ := h
    cases d with
    | fail c | signal c g => exact .quiet rfl rfl
    | gate f' s g => exact hl.elim

end

/-! ### Keepers -/

/-- Somebody who enters a gate, if it is idle, and owns it until letting it go. -/
structure Keeper where
  fixture : Nat
  stage : Stage

namespace Keeper

inductive Point where
  | attempt
  | keeping
  deriving DecidableEq

def step (k : Keeper) (m : Memory) : Point → Move Memory Point Bool
  | .attempt =>
    match (m.gate k.fixture k.stage).enter? with
    | some g => .act (m.setGate k.fixture k.stage g) [] (.point .keeping)
    | none => .act m [] (.ended (.ok false))
  | .keeping =>
    .act (m.setGate k.fixture k.stage (m.gate k.fixture k.stage).leave) [] (.ended (.ok true))

inductive Step (k : Keeper) (m : Memory) : Point → Memory → Stand Point Bool → Prop where
  | enter (hg : m.gate k.fixture k.stage = .idle) :
      Step k m .attempt (m.setGate k.fixture k.stage .active) (.point .keeping)
  | turnedAway : Step k m .attempt m (.ended (.ok false))
  | leave : Step k m .keeping (m.setGate k.fixture k.stage .idle) (.ended (.ok true))

variable {k : Keeper} {m m' : Memory} {p : Point} {u : Stand Point Bool}

theorem step_of_yields (h : (k.step m p).Yields m m' u) : k.Step m p m' u := by
  cases p with
  | attempt =>
    cases hg : m.gate k.fixture k.stage with
    | idle =>
      simp only [step, hg, Gate.enter?] at h
      obtain ⟨rfl, rfl⟩ := h
      exact .enter hg
    | active =>
      simp only [step, hg, Gate.enter?] at h
      obtain ⟨rfl, rfl⟩ := h
      exact .turnedAway
  | keeping =>
    obtain ⟨rfl, rfl⟩ := h
    exact .leave

def owns (k : Keeper) (f : Nat) (s : Stage) (p : Point) : Bool :=
  decide (f = k.fixture ∧ s = k.stage) && decide (p = .keeping)

theorem Step.gate (h : k.Step m p m' u) (f : Nat) (s : Stage)
    (ho : k.owns f s p = true → (m.gate f s).isActive = true) :
    (m'.gate f s).isActive.toNat + (k.owns f s p).toNat =
      (m.gate f s).isActive.toNat + (u.isAt (k.owns f s)).toNat := by
  by_cases hfs : f = k.fixture ∧ s = k.stage
  · obtain ⟨rfl, rfl⟩ := hfs
    cases h with
    | enter hg => simp [owns, Memory.gate_setGate, hg]
    | turnedAway => simp [owns]
    | leave => simp [owns, Memory.gate_setGate, ho (by simp [owns])]
  · have hg : m'.gate f s = m.gate f s := by
      cases h with
      | enter | leave => exact Memory.gate_setGate_ne hfs
      | turnedAway => rfl
    have hu : u.isAt (k.owns f s) = k.owns f s p := by
      cases h <;> simp [owns, hfs, -not_and]
    rw [hg, hu]

theorem Step.isReady (h : k.Step m p m' u) (f : Nat) (s : Stage) :
    m'.isReady f s = m.isReady f s := by
  cases h with
  | enter | leave => exact Memory.isReady_setGate ..
  | turnedAway => rfl

end Keeper

/-! ### Side by side -/

inductive Party where
  | operation (o : Operation)
  | keeper (k : Keeper)

namespace Party

inductive Point where
  | operation (p : Operation.Point)
  | keeper (k : Keeper) (p : Keeper.Point)

def start : Party → Point
  | operation o => .operation o.start
  | keeper k => .keeper k .attempt

def step (now : Nat) (m : Memory) : Point → Move Memory Point Operation.Result
  | .operation p => (Operation.step now m p).andThen .operation .ended
  | .keeper k p => (k.step m p).andThen (.keeper k) fun o => .ended (o.map fun _ => .nothing)

def company : Company Point Operation.Result where
  move _ := step
  others _ _ := False

def Point.turn? : Point → Option (Turn × Turn.Point)
  | .operation p => p.turn?
  | .keeper .. => none

def Point.IsLawful : Point → Prop
  | .operation p => p.IsLawful
  | .keeper .. => True

def Point.owns (f : Nat) (s : Stage) : Point → Bool
  | .operation p => p.turn?.any fun x => x.1.owns f s x.2
  | .keeper k p => k.owns f s p

variable {now f : Nat} {m m' : Memory} {p : Point} {b : Bool} {es : List Event}
  {s : Strand Point Operation.Result} {t : Turn} {q : Turn.Point}

theorem owns_of_turn (hp : p.turn? = some (t, q)) (f : Nat) (r : Stage) :
    p.owns f r = t.owns f r q := by
  cases p with
  | operation p =>
    have hp : p.turn? = some (t, q) := hp
    simp [Point.owns, hp]
  | keeper k p => cases hp

theorem isAt_owns_of_find {u : Stand Turn.Point Unit} {v : Stand Operation.Point Operation.Result}
    (h : v.find Operation.Point.turn? = inTurnAt t u) (f : Nat) (r : Stage) :
    (v.andThen .operation .ended : Stand Point Operation.Result).isAt (Point.owns f r) =
      u.isAt (t.owns f r) := by
  cases v with
  | point p =>
    have h : p.turn? = inTurnAt t u := h
    cases u <;> simp [Point.owns, h, inTurnAt]
  | ended o =>
    cases u with
    | point q => cases h
    | ended r => rfl

/-- The step of a party is one of its turn, one between turns, or one of a keeper. -/
inductive Taken (now : Nat) (m : Memory) (p : Point) (b : Bool) (m' : Memory) (es : List Event)
    (s : Strand Point Operation.Result) : Prop where
  | turn {t : Turn} {q : Turn.Point} {u : Stand Turn.Point Unit} (hp : p.turn? = some (t, q))
      (hu : Strand.Advanced (t.step now m) m ⟨.point q, b⟩ m' es ⟨u, s.calling⟩)
      (hs : s.stand.find Point.turn? = inTurnAt t u)
      (ho : ∀ f r, s.stand.isAt (Point.owns f r) = u.isAt (t.owns f r))
  | aside (hp : p.turn? = none) (ha : ∀ f, Aside f m m' (s.stand.find Point.turn?))
      (ho : ∀ f r, p.owns f r = false ∧ s.stand.isAt (Point.owns f r) = false)
  | keeper {k : Keeper} {q : Keeper.Point} {u : Stand Keeper.Point Bool} (hp : p = .keeper k q)
      (hk : k.Step m q m' u) (hs : s.stand.find Point.turn? = none)
      (ho : ∀ f r, s.stand.isAt (Point.owns f r) = u.isAt (k.owns f r))

theorem not_owns_of_begins {v : Stand Operation.Point Operation.Result}
    (h : Begins (v.find Operation.Point.turn?)) (f : Nat) (r : Stage) :
    (v.andThen .operation .ended : Stand Point Operation.Result).isAt (Point.owns f r) = false := by
  cases v with
  | ended o => rfl
  | point p =>
    rcases h with h | ⟨t, h⟩
    · have h : p.turn? = none := h
      simp [Point.owns, h]
    · have h : p.turn? = some (t, .enter) := h
      simp [Point.owns, h, Turn.owns, Turn.Point.isOwner]

theorem taken_of_advanced (h : Strand.Advanced (step now m) m ⟨.point p, b⟩ m' es s)
    (hl : p.IsLawful) :
    Taken now m p b m' es s := by
  cases p with
  | operation p =>
    obtain ⟨v, c, hv, rfl⟩ := Journey.advanced_part Operation.step _ h fun _ _ _ => rfl
    have hfind : (v.andThen .operation .ended : Stand Point Operation.Result).find Point.turn? =
        v.find Operation.Point.turn? := by
      cases v <;> rfl
    cases hp : p.turn? with
    | some x =>
      obtain ⟨t, q⟩ := x
      obtain ⟨u, hu, hvu⟩ := Operation.turn_of_advanced hv hp
      exact .turn hp hu (hfind.trans hvu) (isAt_owns_of_find hvu)
    | none =>
      have ha : ∀ f, Aside f m m' (v.find Operation.Point.turn?) := by
        intro f
        rcases hv.yields with ⟨rfl, hst⟩ | ⟨p', hp', hy⟩
        · refine .of_eq rfl rfl (.inl ?_)
          cases hst
          exact hp
        · cases hp'
          exact Operation.aside_of_yields hy hp hl
      refine .aside hp (fun f => hfind ▸ ha f) fun f r => ⟨?_, not_owns_of_begins (ha f).next f r⟩
      simp [Point.owns, hp]
  | keeper k q =>
    obtain ⟨u, c, hu, rfl⟩ := Journey.advanced_part (fun _ => k.step) _ h fun _ _ _ => rfl
    have hu : k.Step m q m' u := by
      cases hu with
      | act hp hv =>
        cases hp
        exact Keeper.step_of_yields (by rw [hv]; exact ⟨rfl, rfl⟩)
      | call hp hv | reply hp hv =>
        cases hp
        cases q with
        | attempt => cases hg : (m.gate k.fixture k.stage).enter? <;> simp [Keeper.step, hg] at hv
        | keeping => cases hv
    refine .keeper rfl hu ?_ fun f r => ?_ <;> cases u <;> rfl

section
variable {r : Stage} {p' : Point} {b' : Bool}

theorem Taken.gate (h : Taken now m p b m' es s) (hf : f < m.published)
    (ho : p.owns f r = true → (m.gate f r).isActive = true) :
    (m'.gate f r).isActive.toNat + (p.owns f r).toNat =
      (m.gate f r).isActive.toNat + (s.stand.isAt (Point.owns f r)).toNat := by
  cases h with
  | @turn t q u hp hu hs hown =>
    have hq := owns_of_turn hp f r
    rw [hown, hq]
    rcases hu.yields with ⟨rfl, hst⟩ | ⟨q', hq', hy⟩
    · rw [show u = .point q from hst]
      rfl
    · cases hq'
      exact (Turn.step_of_yields hy).gate f r fun e => ho (hq.trans e)
  | aside hp ha hown =>
    rw [(hown f r).1, (hown f r).2, Memory.gate, (ha f).fixture hf]
    rfl
  | keeper hp hk hs hown =>
    subst hp
    rw [hown]
    exact hk.gate f r ho

theorem Taken.published (h : Taken now m p b m' es s) : m.published ≤ m'.published := by
  cases h with
  | turn hp hu hs ho =>
    rcases hu.yields with ⟨rfl, -⟩ | ⟨q', hq', hy⟩
    · exact Nat.le_refl _
    · exact Nat.le_of_eq (by cases Turn.step_of_yields hy <;> rfl)
  | aside hp ha ho => exact (ha 0).published
  | keeper hp hk hs ho => exact Nat.le_of_eq (by cases hk <;> rfl)

/-- The flags of a level change where somebody commits, and nowhere else. -/
theorem Taken.isReady (h : Taken now m p b m' es s) (hf : f < m.published)
    (hc : ∀ t, p.turn? = some (t, .commit) → ¬ (f = t.fixture ∧ r.level = t.stage.level)) :
    m'.isReady f r = m.isReady f r := by
  cases h with
  | @turn t q u hp hu hs ho =>
    rcases hu.yields with ⟨rfl, -⟩ | ⟨q', hq', hy⟩
    · rfl
    · cases hq'
      have hy := Turn.step_of_yields hy
      by_cases hq : q = .commit
      · subst hq
        cases hy
        exact Memory.isReady_setReady_ne (hc t hp)
      · exact hy.isReady hq f r
  | aside hp ha ho =>
    rw [Memory.isReady, (ha f).fixture hf]
    rfl
  | keeper hp hk hs ho => exact hk.isReady f r

/-- Whoever is past the look at the flag after its step was past it before, or has
just found its stage due. -/
theorem Taken.due (h : Taken now m p b m' es ⟨.point p', b'⟩) (hp : p'.turn? = some (t, q))
    (hq : isPastLook q = true) :
    (∃ q', p.turn? = some (t, q') ∧ isPastLook q' = true ∧ m' = m) ∨
      t.stage.direction = m'.due t.fixture t.stage.level := by
  cases h with
  | @turn t' q' u ht hu hs ho =>
    have hs : p'.turn? = inTurnAt t' u := hs
    cases u with
    | ended o => cases hp.symm.trans hs
    | point u =>
      cases hp.symm.trans hs
      rcases Turn.leg_cases hu with ⟨rfl, hst, -⟩ | ⟨rfl, rfl, -⟩ | ⟨hne, hstep⟩
      · cases hst
        exact .inl ⟨_, ht, hq, rfl⟩
      · exact .inl ⟨.hook, ht, rfl, rfl⟩
      · exact .inr (due_of_step hstep rfl hq hne)
  | aside ht ha ho =>
    rcases (ha 0).next with hn | ⟨t', hn⟩
    · cases hp.symm.trans hn
    · cases hp.symm.trans hn
      cases hq
  | keeper hk hs hn ho => cases hp.symm.trans hn

theorem lawful_of_advanced (h : Strand.Advanced (step now m) m ⟨.point p, b⟩ m' es ⟨.point p', b'⟩)
    (hl : p.IsLawful) : p'.IsLawful := by
  rcases h.yields with ⟨-, hst⟩ | ⟨p₁, hp₁, hy⟩
  · cases hst
    exact hl
  · cases hp₁
    cases p with
    | operation p =>
      obtain ⟨v, hv, hst⟩ := Move.yields_andThen.mp hy
      cases v with
      | ended o => cases hst
      | point v =>
        cases hst
        have hop := Operation.operation_of_yields hv
        cases v with
        | act d =>
          cases p with
          | act d' =>
            cases hop
            exact hl
          | _ => cases hop
        | _ => trivial
    | keeper k q =>
      obtain ⟨v, hv, hst⟩ := Move.yields_andThen.mp hy
      cases v <;> cases hst
      trivial

theorem failed_of_advanced {c : Iteration}
    (h : Strand.Advanced (step now m) m ⟨.point p, b⟩ m' es s) (hf : m.hasFailed c = true) :
    m'.hasFailed c = true := by
  rcases h.yields with ⟨rfl, -⟩ | ⟨p₁, hp₁, hy⟩
  · exact hf
  · cases hp₁
    cases p with
    | operation p =>
      obtain ⟨v, hv, -⟩ := Move.yields_andThen.mp hy
      exact (Operation.sectioned_of_yields hv).failed c hf
    | keeper k q =>
      obtain ⟨v, hv, -⟩ := Move.yields_andThen.mp hy
      cases Keeper.step_of_yields hv <;> exact hf

end

/-! ### Owners -/

/-- What holds of the gates and flags of a fixture at any time. -/
structure Sound (f : Nat) (w : Pool Point Operation.Result) : Prop where
  kept : ∀ r, Kept (w.memory.gate f r).isActive (fun t => t.isAt (Point.owns f r)) w.strands
  due : ∀ {i : Nat} {p : Point} {b : Bool} {t : Turn} {q : Turn.Point},
    w.strands[i]? = some ⟨.point p, b⟩ →
    p.turn? = some (t, q) → t.fixture = f → isPastLook q = true →
      t.stage.direction = w.memory.due f t.stage.level
  lawful : ∀ {i : Nat} {p : Point} {b : Bool}, w.strands[i]? = some ⟨.point p, b⟩ → p.IsLawful
  published : f < w.memory.published

section
variable {w w₀ : Pool Point Operation.Result} {i j : Nat} {p' : Point} {b' : Bool} {t' : Turn}
  {q' : Turn.Point}

theorem Sound.unique (h : Sound f w) (hi : w.strands[i]? = some ⟨.point p, b⟩)
    (hp : p.turn? = some (t, q)) (hq : isPastLook q = true)
    (hj : w.strands[j]? = some ⟨.point p', b'⟩) (hp' : p'.turn? = some (t', q'))
    (hq' : isPastLook q' = true) (hf : t.fixture = f) (hf' : t'.fixture = f)
    (hl : t.stage.level = t'.stage.level) :
    i = j := by
  have hd : t.stage.direction = t'.stage.direction :=
    (h.due hi hp hf hq).trans (hl ▸ (h.due hj hp' hf' hq').symm)
  have hs : t.stage = t'.stage := by
    obtain ⟨_, _, _, ⟨_, _⟩⟩ := t
    obtain ⟨_, _, _, ⟨_, _⟩⟩ := t'
    simp_all
  refine (h.kept t.stage).unique hi ?_ hj ?_
  · rw [Stand.isAt_point, owns_of_turn hp, Turn.owns, Errand.isOwner_of_isPastLook hq]
    simp [hf]
  · rw [Stand.isAt_point, owns_of_turn hp', Turn.owns, Errand.isOwner_of_isPastLook hq']
    simp [hf', hs]

theorem Sound.step (h : Sound f w) (hi : w.strands[i]? = some ⟨.point p, b⟩)
    (ha : Strand.Advanced (step now w.memory) w.memory ⟨.point p, b⟩ m es s) :
    Sound f ⟨m, w.strands.set i s⟩ := by
  have ht := taken_of_advanced ha (h.lawful hi)
  refine ⟨fun r => (h.kept r).set hi (ht.gate h.published fun ho => (h.kept r).taken_of hi ho), ?_,
    ?_, Nat.lt_of_lt_of_le h.published ht.published⟩
  · intro j p' b' t' q' hj hp' hf hq'
    rcases getElem?_set_eq_some hj with ⟨rfl, rfl⟩ | ⟨hij, hj⟩
    · rcases ht.due hp' hq' with ⟨q, hp, hq, rfl⟩ | hd
      · exact h.due hi hp hf hq
      · exact hf ▸ hd
    · -- the flag of this level is not turned, since it would be by somebody else past the look
      rw [h.due hj hp' hf hq', Memory.due, Memory.due, ht.isReady h.published]
      rintro t hp ⟨hf', hl⟩
      exact hij (h.unique hi hp rfl hj hp' hq' hf'.symm hf hl.symm)
  · intro j p' b' hj
    rcases getElem?_set_eq_some hj with ⟨rfl, rfl⟩ | ⟨hij, hj⟩
    · exact lawful_of_advanced ha (h.lawful hi)
    · exact h.lawful hj

end

/-! ### Calls -/

end Party

/-- A leg seen from the point of a part. -/
def Leg.standing {σ τ : Type} (q : τ) (l : Leg σ) : Leg τ := ⟨l.now, l.before, q, l.events, l.after⟩

/-- A turn that was taken, and its legs. -/
structure Call where
  turn : Turn
  legs : List (Leg Turn.Point)

namespace Party

/-- Whoever comes to a gate begins a call, and the legs in a turn belong to the
call that was begun last. -/
def record (calls : List Call) (l : Leg Point) : List Call :=
  match l.point.turn? with
  | none => calls
  | some (t, .enter) => calls ++ [⟨t, [l.standing .enter]⟩]
  | some (_, q) => calls.modifyLast fun c => ⟨c.turn, c.legs ++ [l.standing q]⟩

def calls (legs : List (Leg Point)) : List Call := legs.foldl record []

def Among (legs : List (Leg Point)) (c : Call) : Prop :=
  ∀ l ∈ c.legs, ∃ l' ∈ legs, l'.point.turn? = some (c.turn, l.point) ∧ l = l'.standing l.point

def Over (others : Memory → Memory → Prop) (c : Call) : Prop :=
  ∃ m m' r b, Journey c.turn.step others m (.fresh .enter) c.legs m' ⟨.ended r, b⟩

/-- The calls of a party: all are over but the one that it is in. -/
inductive Ledger (others : Memory → Memory → Prop) (legs : List (Leg Point)) (m : Memory)
    (s : Strand Point Operation.Result) : Prop where
  | idle {past : List Call} (ho : ∀ c ∈ past, Over others c ∧ Among legs c) (hc : calls legs = past)
      (hs : s.stand.find Point.turn? = none)
  | entering {past : List Call} {t : Turn} (ho : ∀ c ∈ past, Over others c ∧ Among legs c)
      (hc : calls legs = past) (hs : s.stand.find Point.turn? = some (t, .enter))
      (hb : s.calling = false)
  | inside {past : List Call} {t : Turn} {q : Turn.Point} {own : List (Leg Turn.Point)}
      {m₀ : Memory} (ho : ∀ c ∈ past, Over others c ∧ Among legs c)
      (hc : calls legs = past ++ [⟨t, own⟩]) (hs : s.stand.find Point.turn? = some (t, q))
      (hq : q ≠ .enter) (hj : Journey t.step others m₀ (.fresh .enter) own m ⟨.point q, s.calling⟩)
      (ha : Among legs ⟨t, own⟩)

section
variable {others : Memory → Memory → Prop} {legs : List (Leg Point)} {l : Leg Point} {c : Call}
  {own : List (Leg Turn.Point)} {now : Nat} {m m' : Memory} {p : Point} {b : Bool} {es : List Event}
  {s : Strand Point Operation.Result} {t : Turn} {q : Turn.Point}

theorem calls_append : calls (legs ++ [l]) = record (calls legs) l := by
  rw [calls, List.foldl_append]
  rfl

theorem Among.append (h : Among legs c) : Among (legs ++ [l]) c := by
  intro x hx
  obtain ⟨l', hl', hx⟩ := h x hx
  exact ⟨l', List.mem_append_left _ hl', hx⟩

theorem Among.snoc (h : Among legs ⟨t, own⟩) (hl : l.point.turn? = some (t, q)) :
    Among (legs ++ [l]) ⟨t, own ++ [l.standing q]⟩ := by
  intro x hx
  rcases List.mem_append.mp hx with hx | hx
  · obtain ⟨l', hl', hx⟩ := h x hx
    exact ⟨l', List.mem_append_left _ hl', hx⟩
  · cases List.mem_singleton.mp hx
    exact ⟨l, List.mem_append_right _ List.mem_cons_self, hl, rfl⟩

theorem inTurnAt_ne_enter {u : Stand Turn.Point Unit} {q' : Turn.Point} {b' : Bool}
    (h : Strand.Advanced (t.step now m) m ⟨.point q, b⟩ m' es ⟨u, b'⟩) (hu : u = .point q') :
    q' ≠ .enter := by
  rintro rfl
  rcases Turn.leg_cases h with ⟨-, hst, -, hq⟩ | ⟨-, -, _, r, -, hst⟩ | ⟨-, hst⟩
  · cases hst.symm.trans (congrArg (Strand.mk · b') hu)
    rcases hq with hq | ⟨_, hq⟩ <;> cases hq
  · cases hst
    cases r <;> cases hu
  · subst hu
    cases hst

theorem calling_of_advanced (h : Strand.Advanced (step now m) m ⟨.point p, b⟩ m' es s)
    (hs : s.calling = true) :
    s.stand = .point p := by
  cases h with
  | act | reply => cases hs
  | call hp =>
    cases hp
    rfl

theorem Ledger.step (h : Ledger others legs m ⟨.point p, b⟩)
    (ha : Strand.Advanced (step now m) m ⟨.point p, b⟩ m' es s) (hl : p.IsLawful) :
    Ledger others (legs ++ [⟨now, m, p, es, m'⟩]) m' s := by
  have outside {past : List Call} (ho : ∀ c ∈ past, Over others c ∧ Among legs c)
      (hc : calls legs = past)
      (hp : p.turn? = none) (hn : Begins (s.stand.find Point.turn?)) :
      Ledger others (legs ++ [⟨now, m, p, es, m'⟩]) m' s := by
    have ho' : ∀ c ∈ past, Over others c ∧ Among (legs ++ [⟨now, m, p, es, m'⟩]) c :=
      fun c hcp => (ho c hcp).imp_right Among.append
    have hc' : calls (legs ++ [⟨now, m, p, es, m'⟩]) = past := by
      simp only [calls_append, record, hp, hc]
    rcases hn with hn | ⟨t, hn⟩
    · exact .idle ho' hc' hn
    · refine .entering ho' hc' hn (Bool.eq_false_iff.mpr fun hb => ?_)
      rw [calling_of_advanced ha hb] at hn
      cases hp.symm.trans hn
  -- a leg in the turn that the party is in
  have onward {past : List Call} {t : Turn} {q : Turn.Point}
    {own : List (Leg Turn.Point)} {m₀ : Memory}
      {u : Stand Turn.Point Unit}
      (ho : ∀ c ∈ past, Over others c ∧ Among legs c) (hp : p.turn? = some (t, q))
      (hj : Journey t.step others m₀ (.fresh .enter) own m ⟨.point q, b⟩)
      (hown : Among legs ⟨t, own⟩)
      (hc : calls (legs ++ [⟨now, m, p, es, m'⟩]) = past ++ [⟨t, own ++ [⟨now, m, q, es, m'⟩]⟩])
      (hu : Strand.Advanced (t.step now m) m ⟨.point q, b⟩ m' es ⟨u, s.calling⟩)
      (hs : s.stand.find Point.turn? = inTurnAt t u) :
      Ledger others (legs ++ [⟨now, m, p, es, m'⟩]) m' s := by
    have ho' : ∀ c ∈ past, Over others c ∧ Among (legs ++ [⟨now, m, p, es, m'⟩]) c :=
      fun c hcp => (ho c hcp).imp_right Among.append
    have hown' : Among (legs ++ [⟨now, m, p, es, m'⟩]) ⟨t, own ++ [⟨now, m, q, es, m'⟩]⟩ :=
      hown.snoc (l := ⟨now, m, p, es, m'⟩) hp
    cases u with
    | point q' => exact .inside ho' hc hs (inTurnAt_ne_enter hu rfl) (hj.step hu) hown'
    | ended r =>
      refine .idle
        (List.forall_mem_append.mpr ⟨ho', List.forall_mem_singleton.mpr ⟨?_, hown'⟩⟩) hc hs
      exact ⟨_, _, r, _, hj.step hu⟩
  cases taken_of_advanced ha hl with
  | @turn t q u hp hu hs _ =>
    cases h with
    | idle ho hc hn => cases hp.symm.trans hn
    | @entering past t' ho hc hn hb =>
      cases hp.symm.trans hn
      cases hb
      refine onward ho hp .start (fun _ hl => nomatch hl) ?_ hu hs
      simp only [calls_append, record, hp, hc]
      rfl
    | @inside past t' q' own m₀ ho hc hn hq hj hown =>
      cases hp.symm.trans hn
      refine onward ho hp hj hown ?_ hu hs
      rw [calls_append, hc]
      simp only [record, hp]
      cases q with
      | enter => exact absurd rfl hq
      | _ => exact List.modifyLast_concat ..
  | aside hp hx ho =>
    cases h with
    | idle ho hc hn => exact outside ho hc hp (hx 0).next
    | entering _ _ hn | inside _ _ hn => cases hp.symm.trans hn
  | keeper hk hs hn ho =>
    subst hk
    cases h with
    | idle ho hc _ => exact outside ho hc rfl (.inl hn)
    | entering _ _ hn | inside _ _ hn => cases hn

theorem Ledger.mono (h : Ledger others legs m s) (hm : others m m') : Ledger others legs m' s := by
  cases h with
  | idle ho hc hs => exact .idle ho hc hs
  | entering ho hc hs hb => exact .entering ho hc hs hb
  | inside ho hc hs hq hj ha => exact .inside ho hc hs hq (hj.others hm) ha

theorem begins_start (x : Party) : Begins (x.start.turn?) := by
  cases x with
  | keeper k => exact .inl rfl
  | operation o =>
    cases o with
    | turn t => exact .inr ⟨t, rfl⟩
    | _ => exact .inl rfl

theorem ledger_of_journey {x : Party} {m₀ : Memory} (hx : x.start.IsLawful)
    (hj : Journey step others m₀ (.fresh x.start) legs m s) :
    Ledger others legs m s ∧ ∀ p, s.stand = .point p → p.IsLawful := by
  induction hj with
  | start =>
    refine ⟨?_, fun p hp => by cases hp; exact hx⟩
    rcases begins_start x with hn | ⟨t, hn⟩
    · exact .idle (List.forall_mem_nil _) rfl hn
    · exact .entering (List.forall_mem_nil _) rfl hn rfl
  | others hj hm ih => exact ⟨ih.1.mono hm, ih.2⟩
  | @step legs now m m' p b es s hj ha ih =>
    have hl := ih.2 p rfl
    refine ⟨ih.1.step ha hl, fun p' hp' => ?_⟩
    obtain ⟨u, b'⟩ := s
    cases hp'
    exact lawful_of_advanced ha hl

end

/-! ### Along a trace -/

def crowd (n : Nat) (parties : Nat → Party) (m : Memory) : Pool Point Operation.Result :=
  gather n (fun i => (parties i).start) m

/-- What the gates and flags of a fixture owe to the steps of all parties. -/
structure Guarded (f : Nat) (tr : List (Nat × Leg Point)) (w : Pool Point Operation.Result) :
    Prop where
  /-- One party owns an active gate, and nobody an idle one. -/
  owned : ∀ r, w.strands.countP (fun u => u.stand.isAt (Point.owns f r)) =
    (w.memory.gate f r).isActive.toNat
  allIdle : (∀ u ∈ w.strands, ∀ r, u.stand.isAt (Point.owns f r) = false) →
    (w.memory.fixture f).allIdle = true
  left : ∀ x ∈ tr, ∀ r, x.2.before.gate f r = .active → x.2.after.gate f r = .idle →
    x.2.point.owns f r = true
  apart : ∀ {i u}, w.strands[i]? = some u → ∀ c ∈ calls (legsOf i tr), ∀ l ∈ c.legs, c.turn.Apart l
  /-- Whoever has entered the gate has discharged its duties, or is still there. -/
  discharged : ∀ {i u}, w.strands[i]? = some u → ∀ c ∈ calls (legsOf i tr), c.turn.fixture = f →
    c.turn.Won c.legs → c.turn.Discharged c.legs ∨
      (calls (legsOf i tr)).getLast? = some c ∧ ∃ q, u.stand.find Point.turn? = some (c.turn, q)

/-- What is known of every leg. -/
structure Proper (f : Nat) (l : Leg Point) : Prop where
  left : ∀ r, l.before.gate f r = .active → l.after.gate f r = .idle → l.point.owns f r = true
  due : ∀ t, l.point.turn? = some (t, .commit) → t.fixture = f →
    l.before.isReady f t.stage ≠ t.stage.isSetUp

/-- Nobody takes a failure flag back. -/
def KeepsFailures (m m' : Memory) : Prop :=
  ∀ c : Iteration, m.hasFailed c = true → m'.hasFailed c = true

section
variable {f i n : Nat} {parties : Nat → Party} {m₀ : Memory} {w w₀ : Pool Point Operation.Result}
  {tr : List (Nat × Leg Point)} {c : Call}

theorem proper_of_advanced {now : Nat} {m : Memory} {p : Point} {b : Bool} {es : List Event}
    {s : Strand Point Operation.Result} (h : Sound f w) (hi : w.strands[i]? = some ⟨.point p, b⟩)
    (ha : Strand.Advanced (step now w.memory) w.memory ⟨.point p, b⟩ m es s) :
    Proper f ⟨now, w.memory, p, es, m⟩ := by
  refine ⟨fun r hg hg' => ?_, fun t hp hf => ?_⟩
  · have hgate := (taken_of_advanced ha (h.lawful hi)).gate (r := r) h.published fun ho =>
      (h.kept r).taken_of hi ho
    have hg : w.memory.gate f r = .active := hg
    have hg' : m.gate f r = .idle := hg'
    rw [hg, hg'] at hgate
    cases ho : p.owns f r with
    | true => rfl
    | false =>
      rw [ho] at hgate
      simp at hgate
      omega
  · subst hf
    exact Memory.due_iff.mpr (h.due hi hp rfl rfl)

theorem sound_of_trace (h₀ : Sound f w₀) (ht : Trace company w₀ tr w) :
    Sound f w ∧ ∀ x ∈ tr, Proper f x.2 := by
  induction ht with
  | start => exact ⟨h₀, List.forall_mem_nil _⟩
  | others _ ho => exact ho.elim
  | step ht hi ha ih =>
    refine ⟨ih.1.step hi ha, List.forall_mem_append.mpr ⟨ih.2, ?_⟩⟩
    exact List.forall_mem_singleton.mpr (proper_of_advanced ih.1 hi ha)

theorem sound_crowd (hl : ∀ i, (parties i).start.IsLawful) (hf : f < m₀.published)
    (hg : ∀ r, m₀.gate f r = .idle) :
    Sound f (crowd n parties m₀) := by
  refine ⟨fun r => ?_, ?_, ?_, hf⟩
  · change Kept (m₀.gate f r).isActive _ _
    rw [hg]
    refine .of_none fun u hu => ?_
    obtain ⟨i, hi⟩ := List.mem_iff_getElem?.mp hu
    cases getElem?_gather hi
    change (parties i).start.owns f r = false
    cases parties i with
    | keeper k => simp [start, Point.owns, Keeper.owns]
    | operation o =>
      cases o with
      | turn t => simp [start, Operation.start, Point.owns, Operation.Point.turn?, Turn.owns,
          Turn.Point.isOwner]
      | _ => rfl
  · intro i p b t q hi hp hf' hq
    cases getElem?_gather hi
    rcases begins_start (parties i) with hn | ⟨t', hn⟩
    · cases hp.symm.trans hn
    · cases hp.symm.trans hn
      cases hq
  · intro i p b hi
    cases getElem?_gather hi
    exact hl i

theorem ledger_of_trace (hl : ∀ i, (parties i).start.IsLawful)
    (ht : Trace company (crowd n parties m₀) tr w) {u : Strand Point Operation.Result}
    (hi : w.strands[i]? = some u) :
    Ledger KeepsFailures (legsOf i tr) w.memory u := by
  have ho {w x w'} (hs : Stepped company w x w') : KeepsFailures w.memory w'.memory :=
    fun c hf => by
    cases hs with
    | step hi ha => exact failed_of_advanced ha hf
    | others ho => exact ho.elim
  obtain ⟨s₀, h₀, hj⟩ := ht.journey ho hi
  cases getElem?_gather h₀
  exact (ledger_of_journey (hl i) hj).1

/-- Every call is a journey of its turn, which has ended or is where the party stands. -/
theorem Ledger.journey {others : Memory → Memory → Prop} {legs : List (Leg Point)} {m : Memory}
    {u : Strand Point Operation.Result} (h : Ledger others legs m u) (hc : c ∈ calls legs) :
    Among legs c ∧ ∃ m₀ m' s, Journey c.turn.step others m₀ (.fresh .enter) c.legs m' s ∧
      ((∃ r, s.stand = .ended r) ∨
        (calls legs).getLast? = some c ∧ ∃ q, u.stand.find Point.turn? = some (c.turn, q)) := by
  have past {l : List Call} (ho : ∀ c ∈ l, Over others c ∧ Among legs c) (hc : c ∈ l) :
      Among legs c ∧ ∃ m₀ m' s, Journey c.turn.step others m₀ (.fresh .enter) c.legs m' s ∧
        ((∃ r, s.stand = .ended r) ∨
          (calls legs).getLast? = some c ∧ ∃ q, u.stand.find Point.turn? = some (c.turn, q)) := by
    obtain ⟨⟨m₁, m₂, r, b, hj⟩, ha⟩ := ho c hc
    exact ⟨ha, m₁, m₂, _, hj, .inl ⟨r, rfl⟩⟩
  cases h with
  | idle ho hcs | entering ho hcs => exact past ho (hcs ▸ hc)
  | inside ho hcs hs hq hj ha =>
    rw [hcs] at hc
    rcases List.mem_append.mp hc with hc | hc
    · exact past ho hc
    · cases List.mem_singleton.mp hc
      refine ⟨ha, _, _, _, hj, .inr ⟨?_, _, hs⟩⟩
      rw [hcs]
      exact List.getLast?_concat

end
end Party

open Party in
/-- Whatever goes on side by side, from hooks and in sleeps too, on a published fixture whose
gates are idle at first. -/
theorem gates_are_guarded {f n : Nat} {parties : Nat → Party} {m₀ : Memory}
    {w : Pool Party.Point Operation.Result} {tr : List (Nat × Leg Party.Point)}
    (hl : ∀ i, (parties i).start.IsLawful) (hf : f < m₀.published) (hg : ∀ r, m₀.gate f r = .idle)
    (ht : Trace company (crowd n parties m₀) tr w) : Guarded f tr w := by
  obtain ⟨hsound, hproper⟩ := sound_of_trace (sound_crowd hl hf hg) ht
  refine ⟨hsound.kept, ?_, fun x hx => (hproper x hx).left, ?_, ?_⟩
  · intro hn
    refine List.all_eq_true.mpr fun r _ => ?_
    have hnone : w.strands.countP (fun u => u.stand.isAt (Point.owns f r)) = 0 :=
      List.countP_eq_zero.mpr fun u hu => by simp [hn u hu r]
    have hgate := (hsound.kept r).symm.trans hnone
    change (!(w.memory.gate f r).isActive) = true
    cases h : (w.memory.gate f r).isActive with
    | false => rfl
    | true =>
      rw [h] at hgate
      cases hgate
  · intro i u hi c hc
    obtain ⟨-, m₁, m₂, s, hj, -⟩ := (ledger_of_trace hl ht hi).journey hc
    exact Turn.apart_of_journey hj
  · intro i u hi c hc hcf hw
    obtain ⟨ha, m₁, m₂, s, hj, hend⟩ := (ledger_of_trace hl ht hi).journey hc
    refine hend.imp_left ?_
    rintro ⟨r, hr⟩
    have hdue : ∀ l ∈ c.legs, l.point = .commit → l.before.isReady c.turn.fixture c.turn.stage ≠
        c.turn.stage.isSetUp := by
      intro l hl' hp
      obtain ⟨l', hl', ht', hll⟩ := ha l hl'
      rw [hll, hcf]
      exact (hproper _ (mem_of_legsOf hl')).due c.turn (hp ▸ ht') hcf
    have htended := Turn.tended_of_journey (fun m m' h => h c.turn.iteration) hj hdue
    rw [hr] at htended
    exact htended hw

/-- While the set-up hook of the duet's first fixture is running, a keeper is turned away
from its gate, another one stays in that of the invocation level, and a turn at the
teardown comes and goes. -/
def visitors : Nat → Party
  | 0 =>
    .operation (.turn ⟨Execution.duet.iteration 0 0, Execution.duet.site, 0, ⟨.iteration, .setUp⟩⟩)
  | 1 => .keeper ⟨0, ⟨.iteration, .setUp⟩⟩
  | 2 => .keeper ⟨0, ⟨.invocation, .setUp⟩⟩
  | _ => .operation (.turn ⟨Execution.duet.iteration 0 0, Execution.duet.site, 0,
      ⟨.iteration, .tearDown⟩⟩)

theorem gates_are_guarded_visited :
    let m₀ := ({} : Memory).publish Execution.duet.site 5
    let gone := (Party.crowd 4 visitors m₀).roam Party.company
      (([0, 0, 0, 0, 1, 2, 3, 3, 3, 3, 0, 0, 0] : List Nat).map fun i => (i, 0, .returned 0))
    Party.Guarded 0 gone.1 gone.2 ∧
      ((Party.calls (legsOf 0 gone.1)).map fun c => (Turn.replies c.legs,
        c.legs.countP c.turn.flips)) =
        [([.returned 0], 1)] ∧
      (Party.calls (legsOf 3 gone.1)).map
        (fun c => (Turn.replies c.legs, c.legs.countP c.turn.flips)) = [([], 0)] ∧
      Stage.all.filter (fun r => (gone.2.memory.gate 0 r).isActive) = [⟨.invocation, .setUp⟩] := by
  intro m₀ gone
  refine ⟨gates_are_guarded ?_ (by decide +kernel) ?_
    (trace_roam ..), by decide +kernel, by decide +kernel, by decide +kernel⟩
  · intro i
    unfold visitors
    split <;> trivial
  · intro r
    rcases r with ⟨_ | _ | _, _ | _⟩ <;> rfl

end LoadBench
