import LoadBench.Proofs.Custody

/-!
# What the members of a group agree on

The members of a group decide for themselves how they end. They agree all the same: each of them
can vouch for something where it stands (`Pass.Vouched`), the live fixture of the site is the one
that all of them hold (`View.Shelf`), and once every member has come through the last checkpoint of
an iteration that was not interrupted, the trial is not failing unless a level still stands
that some member is to tear down (`View.Blamed`). `Accord` is kept by every move of the group.
-/

namespace LoadBench

/-- What is certain of a stage while a member takes its turn at it. An owner that runs a hook of a
teardown knows that the trial is not failing, if the iteration was not interrupted. -/
def Turn.Point.Sound (s : Stage) (v : View) : Turn.Point → Prop
  | .enter | .checkFailed => True
  | .queued (.waiting _) =>
    (v.fixture.gates.get s).isActive = true ∨ v.Settled s ∨ v.failed = true
  | .queued .checkFailed => v.Settled s ∨ v.failed = true
  | .checkReady =>
    s.direction = .tearDown → v.failed = true → v.interrupted = true ∨ v.Settled s
  | .hook | .condemn _ | .commit =>
    ¬ v.Settled s ∧ (s.direction = .tearDown → v.failed = true → v.interrupted = true)
  | .leave r => r.isOk = true → v.Settled s

/-- Whoever is about to publish has found the site vacant. -/
def Acquire.Point.Vouched (v : View) (f : Nat) : Acquire.Point → Prop
  | .look | .enter | .recheck | .condemn _ => True
  | .checkFailed | .construct | .setUp _ | .publish _ => v.live = none
  | .leave r => ∀ g, r = .ok g → g = f

def Release.Point.Vouched (v : View) (f : Nat) : Release.Point → Prop
  | .look => True
  | .cleaning g p => g = f ∧ p.Sound ⟨.trial, .tearDown⟩ v
  | .checkFailed =>
    v.live = none ∧ (v.Settled ⟨.trial, .tearDown⟩ ∨ v.failed = true ∨ v.interrupted = true)
  | .clearing r p => (r.isOk = true → v.Settled ⟨.trial, .tearDown⟩ ∨ v.interrupted = true) ∧
    (p = .leave → v.live = none)

namespace View

/-- Past the last rendezvous: everybody has come to it, unless the iteration was interrupted. -/
def Departed (v : View) (marks : List Nat) : Prop := v.interrupted = true ∨ ∀ r ∈ marks, r = 4

/-- The site is cleared and its fixture torn down, unless the iteration was interrupted. -/
def Spent (v : View) : Prop :=
  v.live = none ∧ (v.Settled ⟨.trial, .tearDown⟩ ∨ v.interrupted = true)

end View

namespace Pass

def Point.Vouched (isLast : Bool) (v : View) (f : Nat) (marks : List Nat) : Point → Prop
  | .begin | .reject | .fail .. | .condemn .. => True
  | .acquire p => p.Vouched v f
  | .setUp g p => g = f ∧ p.Sound ⟨.iteration, .setUp⟩ v
  | .arrive g _ | .enterWarmup g | .warmupGate g _ | .warmupWork g _ | .noteStart g _
  | .measure g _ _ | .noteStop g _ _ | .enterWarmdown g _ _ | .warmdownGate g _ _
  | .warmdownWork g _ _ | .depart g _ _ | .checkInterrupted g _ | .checkFailed g _
  | .force g _ => g = f
  | .tearDown g _ p => g = f ∧ v.Departed marks ∧ p.Sound ⟨.iteration, .tearDown⟩ v
  | .enterRelease _ => v.Departed marks ∧ v.Settled ⟨.iteration, .tearDown⟩ ∧ isLast = true
  | .release _ p =>
    v.Departed marks ∧ v.Settled ⟨.iteration, .tearDown⟩ ∧ isLast = true ∧ p.Vouched v f
  | .finish _ _ =>
    v.Departed marks ∧ v.Settled ⟨.iteration, .tearDown⟩ ∧ (isLast = true → v.Spent)

/-- Where a member stands says this much about all of them. -/
def Vouched (isLast : Bool) (v : View) (f : Nat) (marks : List Nat) : Stand Point Report → Prop
  | .point p => p.Vouched isLast v f marks
  | .ended (.ok _) => v.interrupted = false ∧ v.Departed marks ∧
      v.Settled ⟨.iteration, .tearDown⟩ ∧ (isLast = true → v.Spent)
  | .ended _ => True

def Point.isEquipped : Point → Bool
  | .acquire (.leave r) => r.isOk
  | .begin | .reject | .acquire _ | .fail .. | .condemn .. => false
  | _ => true

def isEquipped : Stand Point Report → Bool
  | .point p => p.isEquipped
  | .ended r => r.isOk

end Pass

namespace View

/-- The site is vacant and nobody has a fixture yet, or the one fixture is live, or the site was
cleared in the last iteration, when everybody had a fixture already. -/
def Shelf (isLast : Bool) (v : View) (f : Nat) (l : List (Stand Pass.Point Report))
    (marks : List Nat) : Prop :=
  (v.live = none ∧ v.published = f ∧ ∀ t ∈ l, Pass.isEquipped t = false) ∨ v.live = some f ∨
    (v.live = none ∧ isLast = true ∧ (∀ r ∈ marks, 2 ≤ r) ∧
      (v.Settled ⟨.trial, .tearDown⟩ ∨ v.failed = true ∨ v.interrupted = true))

/-- Why a trial is failing: the iteration was interrupted, or some member failed before the last
checkpoint, or behind it a level still stands. -/
def Blamed (isLast : Bool) (v : View) (l : List (Stand Pass.Point Report))
    (marks : List Nat) : Prop :=
  v.interrupted = true ∨
    (∃ (i : Nat) (t : Stand Pass.Point Report) (r : Nat), l[i]? = some t ∧ marks[i]? = some r ∧
      Pass.Doomed t ∧ r < 4) ∨
    ((∀ r ∈ marks, r = 4) ∧ ¬ v.Settled ⟨.iteration, .tearDown⟩) ∨
    ((∀ r ∈ marks, r = 4) ∧ isLast = true ∧ ¬ v.Settled ⟨.trial, .tearDown⟩)

end View

structure Accord (isLast : Bool) (v : View) (f : Nat) (l : List (Stand Pass.Point Report))
    (marks : List Nat) : Prop where
  exclusive : ∀ k, Exclusive k v l
  vouched : ∀ {i : Nat} {t : Stand Pass.Point Report}, l[i]? = some t →
    Pass.Vouched isLast v f marks t
  shelf : v.Shelf isLast f l marks
  blamed : v.failed = true → v.Blamed isLast l marks

theorem Pass.Point.Vouched.fixture {isLast : Bool} {v : View} {f : Nat}
    {marks : List Nat} {p : Point} (h : p.Vouched isLast v f marks) {g : Nat}
    (hg : p.fixture? = some g) : g = f := by
  cases p with
  | acquire p =>
    cases p with
    | leave r =>
      cases r with
      | ok g' => cases hg; exact h _ rfl
      | failed e | crashed text => cases hg
    | _ => cases hg
  | setUp | tearDown => cases hg; exact h.1
  | release r p => cases p <;> cases hg; exact h.2.2.2.1
  | begin | reject | enterRelease | finish | fail | condemn => cases hg
  | _ => cases hg; exact h

/-! ### What a member vouches for after its own step -/

theorem Turn.Step.sound {a : Pass} {f : Nat} {s : Stage} {m m' : Memory} {p : Turn.Point}
    {u : Stand Turn.Point Unit} (h : (a.turn f s).Step m p m' u)
    (hp : p.Sound s (m.view a.iteration a.site f)) :
    u.Meets (fun q => q.Sound s (m'.view a.iteration a.site f)) fun r =>
      r.isOk = true → (m'.view a.iteration a.site f).Settled s := by
  cases h with
  | enter => trivial
  | queue hg =>
    have hg : (m.view a.iteration a.site f).fixture.gates.get s = .active := hg
    exact .inl (by rw [hg]; rfl)
  | wait => exact hp
  | foundIdle hg =>
    have hg : (m.view a.iteration a.site f).fixture.gates.get s = .idle := hg
    apply hp.resolve_left
    rw [hg]
    exact Bool.false_ne_true
  | giveUp | foundFailed | abort => exact nofun
  | join hf => exact fun _ => hp.resolve_right (Bool.eq_false_iff.mp hf)
  | proceed hf => exact fun _ hF => absurd hF (Bool.eq_false_iff.mp hf)
  | settled hs => exact fun _ => hs
  | due hs => exact ⟨hs, fun hd hF => (hp hd hF).resolve_right hs⟩
  | returned | mishap => exact hp
  | condemn =>
    intro hr
    rw [Turn.isOk_verdict] at hr
    cases hr
  | commit =>
    intro _
    rw [Pass.turn_fixture, Pass.turn_stage, Memory.view_setReady]
    exact Levels.get_set_self _ _ _
  | leave =>
    rw [Pass.turn_fixture, Pass.turn_stage, Memory.view_setGate]
    exact hp

theorem Acquire.Step.vouched {a : Pass} {f : Nat} {m m' : Memory} {p : Acquire.Point}
    {u : Stand Acquire.Point Nat} (h : a.acquisition.Step m p m' u)
    (hp : p.Vouched (m.view a.iteration a.site f) f)
    (hlive : ∀ g, m.live? a.site = some g → g = f)
    (hpub : ∀ value, p = .publish value → m.published = f) :
    u.Meets (fun q => q.Vouched (m'.view a.iteration a.site f) f) fun r =>
      ∀ g, r = .ok g → g = f := by
  cases h with
  | found hl | foundLate hl =>
    intro g hg
    cases hg
    exact hlive _ hl
  | vacant | enter | mishap | setUpMishap => trivial
  | stillVacant hl => exact hl
  | abort => exact nofun
  | proceed | constructed | setUp => exact hp
  | @publish value =>
    intro g hg
    cases hg
    exact hpub value rfl
  | @condemn x =>
    intro g hg
    have hr := Acquire.isOk_verdict a.acquisition x
    rw [hg] at hr
    cases hr
  | leave => exact hp

theorem Release.Step.vouched {a : Pass} {f : Nat} {m m' : Memory} {p : Release.Point}
    {u : Stand Release.Point Unit} (h : a.giveBack.Step m p m' u)
    (hp : p.Vouched (m.view a.iteration a.site f) f)
    (hlive : ∀ g, m.live? a.site = some g → g = f)
    (hgone : m.live? a.site = none → (m.view a.iteration a.site f).Settled ⟨.trial, .tearDown⟩ ∨
      m.hasFailed a.iteration = true ∨ m.isInterrupted a.iteration = true) :
    u.Meets (fun q => q.Vouched (m'.view a.iteration a.site f) f) fun r =>
      r.isOk = true → (m'.view a.iteration a.site f).Spent := by
  cases h with
  | found hl => exact ⟨hlive _ hl, trivial⟩
  | vacant hl => exact ⟨hl, hgone hl⟩
  | cleaning ht =>
    obtain ⟨rfl, hp⟩ := hp
    exact ⟨rfl, Turn.Step.sound (a := a) ht hp⟩
  | cleaned ht =>
    obtain ⟨rfl, hp⟩ := hp
    exact ⟨fun hr => .inl (Turn.Step.sound (a := a) ht hp hr), nofun⟩
  | crashed => exact nofun
  | abort => exact ⟨nofun, nofun⟩
  | proceed hf =>
    exact ⟨fun _ => hp.2.imp_right fun h => h.resolve_left (Bool.eq_false_iff.mp hf), nofun⟩
  | clearing hc =>
    cases hc with
    | enter =>
      rw [Pass.clear_site, Memory.view_setEntered]
      exact ⟨hp.1, nofun⟩
    | store =>
      rw [Pass.clear_site, Memory.view_clear]
      exact ⟨hp.1, fun _ => rfl⟩
  | cleared hc =>
    cases hc with
    | leave =>
      rw [Pass.clear_site, Memory.view_setEntered]
      exact fun hr => ⟨hp.2 rfl, hp.1 hr⟩

theorem View.Departed.mono {v v' : View} {marks marks' : List Nat} (h : v.Departed marks)
    (hi : v.interrupted = true → v'.interrupted = true)
    (hm : (∀ r ∈ marks, r = 4) → ∀ r ∈ marks', r = 4) : v'.Departed marks' :=
  h.imp hi hm

theorem Pass.Step.vouched {a : Pass} {f : Nat} {m m' : Memory} {p : Pass.Point}
    {t : Stand Pass.Point Report} {r : Nat} {marks : List Nat} (h : a.Step m p m' t)
    (hp : p.Vouched a.iteration.isLast (m.view a.iteration a.site f) f marks)
    (he : p.Excused m a.iteration r)
    (hlive : ∀ g, m.live? a.site = some g → g = f)
    (hgone : p.isEquipped = true → m.live? a.site = none →
      (m.view a.iteration a.site f).Settled ⟨.trial, .tearDown⟩ ∨
        m.hasFailed a.iteration = true ∨ m.isInterrupted a.iteration = true)
    (hpub : ∀ value, p = .acquire (.publish value) → m.published = f)
    (hmet : a.iteration.threads ≤ (m.signalsOf a.iteration).tearDownArrivals → ∀ r ∈ marks, r = 4) :
    Pass.Vouched a.iteration.isLast (m'.view a.iteration a.site f) f marks t := by
  have hl := h.later
  have hdeed := h.deed (fun _ => hp.fixture) hpub
  have departed (hd : (m.view a.iteration a.site f).Departed marks) :
      (m'.view a.iteration a.site f).Departed marks := hd.mono hl.interrupted id
  cases h with
  | acquire h => exact h.vouched hp hlive fun value hv => hpub value (congrArg _ hv)
  | @acquired _ _ o h =>
    have hv := h.vouched hp hlive fun value hv => hpub value (congrArg _ hv)
    cases o with
    | ok g => exact hv g rfl
    | failed e | crashed text => trivial
  | @arrived _ _ _ o h =>
    cases o with
    | ok v => exact ⟨hp, trivial⟩
    | failed e | crashed text => trivial
  | setUp h =>
    obtain ⟨rfl, hp⟩ := hp
    exact ⟨rfl, h.sound hp⟩
  | @setUpDone g _ _ o h =>
    cases o with
    | ok v =>
      change Point.Vouched _ _ _ _ (a.afterSetUp g)
      unfold afterSetUp
      split <;> exact hp.1
    | failed e | crashed text => trivial
  | @measured _ _ _ _ o h =>
    cases o with
    | ok v =>
      have hg : _ = f := hp
      exact hg
    | failed e | crashed text => trivial
  | @noteStop g ops r =>
    have hg : g = f := hp
    change Point.Vouched _ _ _ _ (a.afterMeasured g ops r)
    unfold afterMeasured
    split <;> exact hg
  | met h =>
    cases h with
    | met hn => exact ⟨hp, .inr (hmet hn), trivial⟩
  | force => exact ⟨hp, .inl (hl.interrupted he), trivial⟩
  | tearDown h =>
    obtain ⟨rfl, hd, hp⟩ := hp
    exact ⟨rfl, departed hd, h.sound hp⟩
  | @tearDownDone g r _ _ o h =>
    obtain ⟨rfl, hd, hp⟩ := hp
    have hs := h.sound hp
    cases o with
    | ok v =>
      change Point.Vouched _ _ _ _ (a.afterTearDown r)
      unfold afterTearDown
      split
      · rename_i hlast
        exact ⟨departed hd, hs rfl, hlast⟩
      · rename_i hlast
        exact ⟨departed hd, hs rfl, fun h => absurd h hlast⟩
    | failed e | crashed text => trivial
  | enterRelease => exact ⟨hp.1, hp.2.1, hp.2.2, trivial⟩
  | @release r q _ _ h =>
    obtain ⟨hd, hs, hlast, hp⟩ := hp
    refine ⟨departed hd, (hdeed.settled ?_ nofun).mpr hs, hlast, h.vouched hp hlive (hgone rfl)⟩
    intro s hs
    cases q <;> cases hs
    exact nofun
  | @released r q _ o h =>
    obtain ⟨hd, hs, hlast, hp⟩ := hp
    have hspent := h.vouched hp hlive (hgone rfl)
    cases o with
    | ok v =>
      refine ⟨departed hd, (hdeed.settled ?_ nofun).mpr hs, fun _ => hspent rfl⟩
      intro s hs
      cases q <;> cases hs
      exact nofun
    | failed e | crashed text => trivial
  | finish hr hi => exact ⟨hi, hp.1, hp.2.1, hp.2.2⟩
  | arrive | enterWarmup | stayWarmup | leaveWarmup | warmupWorked | noteStart | measure
  | enterWarmdown | stayWarmdown | leaveWarmdown | warmdownWorked | depart | notMet | interrupted
  | proceed =>
    have hg : _ = f := hp
    exact hg
  | _ => trivial

/-! ### What a member vouches for after a deed of another -/

theorem Turn.Step.doomed {t : Turn} {m m' : Memory} {p : Turn.Point} {u : Stand Turn.Point Unit}
    (h : t.Step m p m' u) (hp : p.Doomed) :
    u.Meets Turn.Point.Doomed fun r => r.isOk = false := by
  cases h with
  | condemn => exact Turn.isOk_verdict _ _
  | leave => exact hp
  | _ => exact False.elim hp

theorem Turn.Step.doomed_of_failed {t : Turn} {m m' : Memory} {p : Turn.Point}
    {u : Stand Turn.Point Unit} (h : t.Step m p m' u) (hm : m.hasFailed t.iteration = false)
    (hm' : m'.hasFailed t.iteration = true) :
    u.Meets Turn.Point.Doomed fun r => r.isOk = false := by
  cases h with
  | condemn => exact Turn.isOk_verdict _ _
  | _ => exact Bool.noConfusion (hm'.symm.trans hm)

namespace Pass
variable {isLast : Bool} {f : Nat} {marks : List Nat} {p : Point}
  {t u : Stand Point Report} {v v' : View}

theorem Point.turn?_stage {p : Point} {s : Stage} {q : Turn.Point} (h : p.turn? = some (s, q)) :
    s = ⟨.iteration, .setUp⟩ ∨ s = ⟨.iteration, .tearDown⟩ ∨ s = ⟨.trial, .tearDown⟩ := by
  cases p with
  | setUp => cases h; exact .inl rfl
  | tearDown => cases h; exact .inr (.inl rfl)
  | release r p => cases p <;> cases h; exact .inr (.inr rfl)
  | _ => cases h

/-- A level that was torn down stays so, unless it is set up again or a fixture is published. -/
theorem Deed.settled_tearDown (h : Deed f p t v v') {l : Level}
    (hs : l = .iteration → p.turn? ≠ some (⟨.iteration, .setUp⟩, .commit))
    (hp : ∀ value, p ≠ .acquire (.publish value)) (hv : v.Settled ⟨l, .tearDown⟩) :
    v'.Settled ⟨l, .tearDown⟩ := by
  cases h with
  | @commit s hc =>
    by_cases hl : s.level = l
    · subst hl
      obtain rfl | rfl | rfl := Point.turn?_stage hc
      · exact absurd hc (hs rfl)
      · exact v.settled_setReady _
      · exact v.settled_setReady _
    · exact (v.settled_setReady_ne _ fun e => hl e.symm).mpr hv
  | publish hc => exact absurd hc (hp _)
  | _ => exact hv

theorem Deed.failed (h : Deed f p t v v') (hv : v.failed = true) : v'.failed = true := by
  cases h with
  | fail => rfl
  | _ => exact hv

theorem Deed.condemns (h : Deed f p t v v') (hv : v.failed = false) (hv' : v'.failed = true) :
    p.Condemns := by
  cases h with
  | fail hp => exact hp
  | _ => exact Bool.noConfusion (hv'.symm.trans hv)

theorem Deed.interrupted (h : Deed f p t v v') : v'.interrupted = v.interrupted := by
  cases h <;> rfl

/-- A turn goes on as before while others act, as long as nobody else is at work at its level. -/
theorem Sound.deed {s : Stage} {q : Turn.Point} (hq : q.Sound s v) (h : Deed f p t v v')
    (hfail : p.Condemns → v.failed = false → v.interrupted = false → s.direction = .tearDown →
      q.isOwner = true → v.Settled s)
    (hleave : ∀ r, p.turn? = some (s, .leave r) → v.Settled s ∨ v.failed = true)
    (hcommit : ∀ r, p.turn? = some (r, .commit) → s.level = r.level → s = r ∧ q.isOwner = false)
    (hpub : ∀ value, p ≠ .acquire (.publish value)) : q.Sound s v' := by
  cases h with
  | still | comeIn | goOut | clear => exact hq
  | publish hv => exact absurd hv (hpub _)
  | fail hp =>
    cases hf : v.failed with
    | true =>
      have : ({ v with failed := true } : View) = v := by rw [← hf]
      exact this ▸ hq
    | false =>
      cases q with
      | enter | checkFailed => trivial
      | queued q =>
        cases q with
        | waiting => exact .inr (.inr rfl)
        | checkFailed => exact .inr rfl
      | checkReady =>
        intro hd _
        cases hi : v.interrupted with
        | true => exact .inl rfl
        | false => exact .inr (hfail hp hf hi hd rfl)
      | hook | condemn | commit =>
        refine ⟨hq.1, ?_⟩
        intro hd _
        cases hi : v.interrupted with
        | true => rfl
        | false => exact absurd (hfail hp hf hi hd rfl) hq.1
      | leave => exact hq
  | @enter r hp hg =>
    cases q with
    | queued q =>
      cases q with
      | waiting =>
        apply hq.imp_left
        intro ha
        change ((v.fixture.gates.set r .active).get s).isActive = true
        rw [Stages.get_set]
        split
        · rfl
        · exact ha
      | checkFailed => exact hq
    | _ => exact hq
  | @leave r o hp =>
    cases q with
    | queued q =>
      cases q with
      | waiting =>
        by_cases hs : s = r
        · subst hs
          exact .inr (hleave o hp)
        · apply hq.imp_left
          intro ha
          change ((v.fixture.gates.set r .idle).get s).isActive = true
          rw [Stages.get_set_ne _ _ hs]
          exact ha
      | checkFailed => exact hq
    | _ => exact hq
  | @commit r hp =>
    by_cases hl : s.level = r.level
    · obtain ⟨rfl, hown⟩ := hcommit r hp hl
      have hset : (v.setReady s s.isSetUp).Settled s := v.settled_setReady s
      cases q with
      | enter => trivial
      | queued q =>
        cases q with
        | waiting => exact .inr (.inl hset)
        | checkFailed => exact .inl hset
      | _ => cases hown
    · have hset : (v.setReady r r.isSetUp).Settled s ↔ v.Settled s := v.settled_setReady_ne _ hl
      cases q with
      | enter | checkFailed => trivial
      | queued q =>
        cases q with
        | waiting => exact hq.imp_right fun h => h.imp_left hset.mpr
        | checkFailed => exact hq.imp_left hset.mpr
      | checkReady => exact fun hd hf => (hq hd hf).imp_right hset.mpr
      | hook | condemn | commit => exact ⟨fun h => hq.1 (hset.mp h), hq.2⟩
      | leave => exact fun hr => hset.mpr (hq hr)

theorem Deed.live (h : Deed f p t v v') (hp : ∀ value, p ≠ .acquire (.publish value))
    (hv : v.live = none) : v'.live = none := by
  cases h with
  | publish hc => exact absurd hc (hp _)
  | clear => rfl
  | _ => exact hv

theorem Vouched.deed (hu : Vouched isLast v f marks u) (h : Deed f p t v v')
    (hturn : ∀ q s r, u = .point q → q.turn? = some (s, r) → r.Sound s v → r.Sound s v')
    (hset : p.turn? = some (⟨.iteration, .setUp⟩, .commit) → ¬ v.Departed marks)
    (hpub : ∀ value, p ≠ .acquire (.publish value)) : Vouched isLast v' f marks u := by
  have departed (hd : v.Departed marks) : v'.Departed marks :=
    hd.mono (fun hi => h.interrupted.trans hi) id
  have torn (hd : v.Departed marks) (hs : v.Settled ⟨.iteration, .tearDown⟩) :
      v'.Settled ⟨.iteration, .tearDown⟩ := h.settled_tearDown (fun _ hc => hset hc hd) hpub hs
  have torn' (hs : v.Settled ⟨.trial, .tearDown⟩) : v'.Settled ⟨.trial, .tearDown⟩ :=
    h.settled_tearDown nofun hpub hs
  have spent (hs : v.Spent) : v'.Spent :=
    ⟨h.live hpub hs.1, hs.2.imp torn' fun hi => h.interrupted.trans hi⟩
  cases u with
  | ended o =>
    cases o with
    | ok r =>
      obtain ⟨hi, hd, hs, hsp⟩ := hu
      exact ⟨h.interrupted.trans hi, departed hd, torn hd hs, fun hl => spent (hsp hl)⟩
    | failed e | crashed text => trivial
  | point q =>
    cases q with
    | begin | reject | fail | condemn => trivial
    | acquire q =>
      cases q with
      | look | enter | recheck | condemn => trivial
      | checkFailed | construct | setUp | publish => exact h.live hpub hu
      | leave r => exact hu
    | setUp g q => exact ⟨hu.1, hturn _ _ _ rfl rfl hu.2⟩
    | tearDown g r q =>
      obtain ⟨hg, hd, hs⟩ := hu
      exact ⟨hg, departed hd, hturn _ _ _ rfl rfl hs⟩
    | enterRelease r =>
      obtain ⟨hd, hs, hl⟩ := hu
      exact ⟨departed hd, torn hd hs, hl⟩
    | release r q =>
      obtain ⟨hd, hs, hl, hq⟩ := hu
      refine ⟨departed hd, torn hd hs, hl, ?_⟩
      cases q with
      | look => trivial
      | cleaning g q => exact ⟨hq.1, hturn _ _ _ rfl rfl hq.2⟩
      | checkFailed =>
        exact ⟨h.live hpub hq.1,
          hq.2.imp torn' fun h' => h'.imp h.failed fun hi => h.interrupted.trans hi⟩
      | clearing o q =>
        exact ⟨fun ho => (hq.1 ho).imp torn' fun hi => h.interrupted.trans hi,
          fun hl => h.live hpub (hq.2 hl)⟩
    | finish phase r =>
      obtain ⟨hd, hs, hsp⟩ := hu
      exact ⟨departed hd, torn hd hs, fun hl => spent (hsp hl)⟩
    | _ => exact hu

/-- Nothing that depends on the fixture is vouched for before there is one. -/
theorem Vouched.of_unequipped (hu : isEquipped u = false) (hs : holds u .site = false) :
    Vouched isLast v f marks u := by
  cases u with
  | ended o =>
    cases o with
    | ok r => cases hu
    | failed e | crashed text => trivial
  | point q =>
    cases q with
    | begin | reject | fail | condemn => trivial
    | acquire q =>
      cases q with
      | look | enter => trivial
      | _ => cases hs
    | _ => cases hu

theorem holds_gate_of_unequipped (hu : isEquipped u = false) (s : Stage) :
    holds u (.gate s) = false := by
  cases u with
  | ended o => rfl
  | point q =>
    cases q with
    | setUp | tearDown | release => cases hu
    | _ => rfl

theorem Vouched.mono_marks {marks' : List Nat} (hu : Vouched isLast v f marks u)
    (hm : (∀ r ∈ marks, r = 4) → ∀ r ∈ marks', r = 4) : Vouched isLast v f marks' u := by
  cases u with
  | ended o =>
    cases o with
    | ok r => exact ⟨hu.1, hu.2.1.mono id hm, hu.2.2⟩
    | failed e | crashed text => trivial
  | point q =>
    cases q with
    | tearDown => exact ⟨hu.1, hu.2.1.mono id hm, hu.2.2⟩
    | enterRelease | release | finish => exact ⟨hu.1.mono id hm, hu.2⟩
    | _ => exact hu

theorem Sound.interrupt {s : Stage} {q : Turn.Point} (hq : q.Sound s v) :
    q.Sound s { v with interrupted := true } := by
  cases q with
  | queued q => cases q <;> exact hq
  | checkReady => exact fun _ _ => .inl rfl
  | hook | condemn | commit => exact ⟨hq.1, fun _ _ => rfl⟩
  | _ => exact hq

/-- An interruption takes nothing back, as long as nobody has ended with a result. -/
theorem Vouched.interrupt (hu : Vouched isLast v f marks u) (hr : ∀ r, u ≠ .ended (.ok r)) :
    Vouched isLast { v with interrupted := true } f marks u := by
  cases u with
  | ended o =>
    cases o with
    | ok r => exact absurd rfl (hr r)
    | failed e | crashed text => trivial
  | point q =>
    cases q with
    | setUp => exact ⟨hu.1, Sound.interrupt hu.2⟩
    | tearDown => exact ⟨hu.1, .inl rfl, Sound.interrupt hu.2.2⟩
    | enterRelease => exact ⟨.inl rfl, hu.2⟩
    | release r q =>
      refine ⟨.inl rfl, hu.2.1, hu.2.2.1, ?_⟩
      have hq := hu.2.2.2
      cases q with
      | look => trivial
      | cleaning => exact ⟨hq.1, Sound.interrupt hq.2⟩
      | checkFailed => exact ⟨hq.1, .inr (.inr rfl)⟩
      | clearing => exact ⟨fun _ => .inr rfl, hq.2⟩
    | finish => exact ⟨.inl rfl, hu.2.1, fun hl => ⟨(hu.2.2 hl).1, .inr rfl⟩⟩
    | _ => exact hu

/-! ### Facts about a member that takes a turn -/

theorem Point.Passed.turn {p : Point} {r : Nat} (h : p.Passed r) {s : Stage} {q : Turn.Point}
    (ht : p.turn? = some (s, q)) :
    s = ⟨.iteration, .setUp⟩ ∧ r = 1 ∨ s.direction = .tearDown ∧ r = 4 := by
  cases p with
  | setUp => cases ht; exact .inl ⟨rfl, h⟩
  | tearDown => cases ht; exact .inr ⟨rfl, h⟩
  | release r p => cases p <;> cases ht; exact .inr ⟨rfl, h⟩
  | _ => cases ht

theorem Point.Vouched.turn {p : Point} (h : p.Vouched isLast v f marks) {s : Stage} {q : Turn.Point}
    (ht : p.turn? = some (s, q)) :
    q.Sound s v ∧ (s.direction = .tearDown → v.Departed marks) ∧
      (s.level = .trial → v.Settled ⟨.iteration, .tearDown⟩ ∧ isLast = true) := by
  cases p with
  | setUp => cases ht; exact ⟨h.2, nofun, nofun⟩
  | tearDown => cases ht; exact ⟨h.2.2, fun _ => h.2.1, nofun⟩
  | release r p => cases p <;> cases ht; exact ⟨h.2.2.2.2, fun _ => h.1, fun _ => ⟨h.2.1, h.2.2.1⟩⟩
  | _ => cases ht

theorem Point.Excused.turn {m : Memory} {c : Iteration} {p : Point} {r : Nat} (h : p.Excused m c r)
    {s : Stage} {o : Outcome Unit} (ht : p.turn? = some (s, .leave o)) (ho : o.isOk = false) :
    m.hasFailed c = true := by
  cases p with
  | setUp => cases ht; exact h ho
  | tearDown => cases ht; exact h.2 ho
  | release r p => cases p <;> cases ht; exact h.2 ho
  | _ => cases ht

/-! ### What a step does to a doom, and to who has a fixture -/

theorem doomed_onward {α : Type} {phase : Phase} {next : α → Point} {o : Outcome α}
    (h : o.isOk = false) :
    Doomed (onward phase next o) := by
  cases o with
  | ok v => cases h
  | failed e | crashed text => trivial

theorem Step.doomed {a : Pass} {m m' : Memory} (h : a.Step m p m' t) (hp : Doomed (.point p)) :
    Doomed t := by
  cases h with
  | reject | fail | condemn => trivial
  | acquire h =>
    cases h with
    | condemn => exact Acquire.isOk_verdict _ _
    | _ => exact False.elim hp
  | acquired h =>
    cases h with
    | leave => exact doomed_onward hp
    | _ => exact False.elim hp
  | setUp h | tearDown h => exact h.doomed hp
  | setUpDone h | tearDownDone h => exact doomed_onward (h.doomed hp)
  | release h =>
    cases h with
    | cleaning ht => exact ht.doomed hp
    | cleaned ht => exact ht.doomed hp
    | clearing => exact hp
    | _ => exact False.elim hp
  | released h =>
    cases h with
    | crashed => trivial
    | cleared => exact doomed_onward hp
  | _ => exact False.elim hp

/-- Who marks a trial failing is doomed. -/
theorem Step.doomed_of_failed {a : Pass} {m m' : Memory} (h : a.Step m p m' t)
    (hm : m.hasFailed a.iteration = false) (hm' : m'.hasFailed a.iteration = true) : Doomed t := by
  have same (hs : m'.hasFailed a.iteration = m.hasFailed a.iteration) : Doomed t :=
    Bool.noConfusion (hm'.symm.trans (hs.trans hm))
  cases h with
  | reject | condemn => trivial
  | acquire h =>
    cases h with
    | condemn => exact Acquire.isOk_verdict _ _
    | _ => exact same rfl
  | acquired h => cases h <;> exact same rfl
  | setUp h | tearDown h => exact h.doomed_of_failed hm hm'
  | setUpDone h | tearDownDone h => exact doomed_onward (h.doomed_of_failed hm hm')
  | release h =>
    cases h with
    | cleaning ht => exact ht.doomed_of_failed hm hm'
    | cleaned ht => exact ht.doomed_of_failed hm hm'
    | clearing hc => exact same (hc.hasFailed _)
    | _ => exact same rfl
  | released h =>
    cases h with
    | crashed => trivial
    | cleared hc => exact same (hc.hasFailed _)
  | arrive h | arrived h | depart h | met h | notMet h => exact same (h.hasFailed _)
  | measure h | measured h => exact same (h.hasFailed _)
  | _ => exact same rfl

theorem Step.publishes {a : Pass} {m m' : Memory} {value : Nat}
    (h : a.Step m (.acquire (.publish value)) m' t) (hf : m.published = f) :
    m'.live? a.site = some f := by
  cases h with
  | acquire h =>
    cases h with
    | publish =>
      change (Memory.view _ a.iteration a.site f).live = some f
      rw [acquisition_site, Memory.view_publish _ _ hf]
  | acquired h => cases h

/-- Nobody gets a fixture at a vacant site but by publishing one. -/
theorem Step.unequipped {a : Pass} {m m' : Memory} (h : a.Step m p m' t) (hp : p.isEquipped = false)
    (hl : m.live? a.site = none) (hpub : ∀ value, p ≠ .acquire (.publish value)) :
    isEquipped t = false := by
  cases h with
  | enrol | misplaced | reject | fail | condemn => rfl
  | acquire h =>
    cases h with
    | foundLate hl' => exact absurd (hl'.symm.trans hl) nofun
    | publish => exact absurd rfl (hpub _)
    | condemn => exact Acquire.isOk_verdict _ _
    | _ => rfl
  | @acquired _ _ o h =>
    cases h with
    | found hl' => exact absurd (hl'.symm.trans hl) nofun
    | leave =>
      cases o with
      | ok g => cases hp
      | failed e | crashed text => rfl
  | _ => cases hp

end Pass
end LoadBench
