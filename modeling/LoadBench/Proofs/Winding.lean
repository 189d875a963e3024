import LoadBench.Proofs.Health

/-!
# Winding down

Once the conductor of a healthy iteration has noted that its time is over, the members end one after
the other, some of them while others are still in a hook. They leave the two teardowns in good hands
all the same: whoever is done with a teardown leaves it settled or somebody in its gate
(`View.Handled`), whoever has torn the last iteration down goes on to the cleanup, and nobody else
comes near the cleanup (`Group.Winding`).
-/

namespace LoadBench

/-- A level stands where the stage would bring it, or somebody is in the gate of the stage. -/
def View.Handled (v : View) (s : Stage) : Prop := v.Settled s ∨ v.isTaken (.gate s) = true

/-- Nobody ends a turn before its stage is handled, unless the trial is failing. -/
theorem Turn.Step.handled {a : Pass} {f : Nat} {s : Stage} {m m' : Memory} {p : Turn.Point}
    {o : Outcome Unit} (h : (a.turn f s).Step m p m' (.ended o))
    (hs : p.Sound s (m.view a.iteration a.site f)) (he : Turn.Excused m a.iteration (.point p))
    (hf : m.hasFailed a.iteration = false) :
    (m.view a.iteration a.site f).Handled s := by
  have hclear : ¬ m.hasFailed a.iteration = true := Bool.eq_false_iff.mp hf
  cases h with
  | giveUp =>
    rcases hs with ht | hs | hF
    · exact .inr ht
    · exact .inl hs
    · exact absurd hF hclear
  | join => exact .inl (hs.resolve_right hclear)
  | foundFailed hF => exact absurd hF hclear
  | leave =>
    cases hok : o.isOk with
    | true => exact .inl (hs hok)
    | false => exact absurd (he hok) hclear

namespace Pass
variable {a : Pass} {m m' : Memory} {p : Point} {t : Stand Point Report} {isLast : Bool} {f r : Nat}
  {marks : List Nat} {v v' : View} {s : Stage}

/-- Whoever has entered its warmup loop is past the fixture and the set-up. -/
theorem Point.Passed.warm (hp : p.Passed r) (h2 : 2 ≤ r) :
    (∀ value, p ≠ .acquire (.publish value)) ∧ ∀ o, p.turn? ≠ some (⟨.iteration, .setUp⟩, o) := by
  refine ⟨?_, fun o ho => ?_⟩
  · rintro value rfl
    have h0 : r = 0 := hp
    omega
  · rcases hp.turn ho with ⟨_, h1⟩ | ⟨hd, _⟩
    · omega
    · cases hd

theorem Point.Vouched.settled_of_leave {c : Iteration} {site : Site} {o : Outcome Unit}
    (hv : p.Vouched isLast (m.view c site f) f marks) (he : p.Excused m c r)
    (hf : m.hasFailed c = false) (ht : p.turn? = some (s, .leave o)) :
    (m.view c site f).Settled s := by
  cases hok : o.isOk with
  | true => exact (hv.turn ht).1 hok
  | false => exact Bool.noConfusion ((he.turn ht hok).symm.trans hf)

theorem Deed.handled {l : Level} (h : Deed f p t v v')
    (hset : ∀ o, p.turn? ≠ some (⟨.iteration, .setUp⟩, o))
    (hpub : ∀ value, p ≠ .acquire (.publish value))
    (hleave : ∀ o, p.turn? = some (⟨l, .tearDown⟩, .leave o) → v.Settled ⟨l, .tearDown⟩)
    (hv : v.Handled ⟨l, .tearDown⟩) : v'.Handled ⟨l, .tearDown⟩ := by
  rcases hv with hv | hv
  · exact .inl (h.settled_tearDown (fun _ => hset _) hpub hv)
  · cases h with
    | publish hp => exact absurd hp (hpub _)
    | @enter s =>
      right
      change ((v.fixture.gates.set s .active).get _).isActive = true
      rw [Stages.get_set]
      split
      · rfl
      · exact hv
    | @leave s o hp =>
      by_cases hs : (⟨l, .tearDown⟩ : Stage) = s
      · subst hs
        exact .inl (hleave o hp)
      · right
        change ((v.fixture.gates.set s .idle).get _).isActive = true
        rw [Stages.get_set_ne _ _ hs]
        exact hv
    | _ => exact .inr hv

/-- A stage gets settled by the commit of its own. -/
theorem Deed.settles (h : Deed f p t v v') (hset : ∀ o, p.turn? ≠ some (⟨.iteration, .setUp⟩, o))
    (hpub : ∀ value, p ≠ .acquire (.publish value)) (hv : v'.Settled ⟨.iteration, .tearDown⟩) :
    v.Settled ⟨.iteration, .tearDown⟩ ∨ p.turn? = some (⟨.iteration, .tearDown⟩, .commit) := by
  cases h with
  | commit hc =>
    rcases Point.turn?_stage hc with rfl | rfl | rfl
    · exact absurd hc (hset _)
    · exact .inr hc
    · exact .inl ((v.settled_setReady_ne _ (by decide)).mp hv)
  | publish hc => exact absurd hc (hpub _)
  | _ => exact .inl hv

theorem Deed.keeps_live (h : Deed f p t v v') (hpub : ∀ value, p ≠ .acquire (.publish value))
    (hclear : ∀ y o, p ≠ .release y (.clearing o .store)) (hl : v.live = some f) :
    v'.live = some f := by
  cases h with
  | publish hc => exact absurd hc (hpub _)
  | clear hc => exact absurd hc (hclear _ _)
  | _ => exact hl

/-! ### Behind the teardown -/

def isOver : Stand Point Report → Bool
  | .point (.fail ..) | .point (.condemn ..) | .ended _ => true
  | .point _ => false

/-- In a trial that is not failing, nobody who has entered its warmup loop is over before the
teardown of the iteration is handled. -/
theorem Step.handled_of_over (h : a.Step m p m' t)
    (hv : p.Vouched isLast (m.view a.iteration a.site f) f marks) (he : p.Excused m a.iteration r)
    (hp : p.Passed r) (h2 : 2 ≤ r) (hu : Unharmed r t) (hf : m.hasFailed a.iteration = false)
    (ht : isOver t = true) :
    isOver (.point p) = true ∨ (m.view a.iteration a.site f).Handled ⟨.iteration, .tearDown⟩ := by
  have hclear : ¬ m.hasFailed a.iteration = true := Bool.eq_false_iff.mp hf
  have early {n : Nat} (hr : r = n) (hn : n < 2) : False := by omega
  cases h with
  | reject => exact (early hp (by decide)).elim
  | acquired => exact (early hp (by decide)).elim
  | @arrived f p => cases p <;> exact (early hp (by decide)).elim
  | setUpDone => exact (early hp (by decide)).elim
  | measured h => cases h <;> first | exact hu.elim | cases ht
  | @noteStop f ops o =>
    have hn : isOver (.point (a.afterMeasured f ops o)) = false := by
      unfold afterMeasured
      split <;> rfl
    exact Bool.noConfusion (ht.symm.trans hn)
  | notInterrupted hi => exact (he.elim hclear (Bool.eq_false_iff.mp hi)).elim
  | abort hF => exact absurd hF hclear
  | tearDownDone h =>
    obtain ⟨rfl, _, hs⟩ := hv
    exact .inr (h.handled hs he.2 hf)
  | released | void | finish => exact .inr (.inl hv.2.1)
  | fail | condemn => exact .inl rfl
  | warmupCrashed | warmdownCrashed => exact hu.elim
  | _ => cases ht

/-! ### At the site -/

def Point.isClearing : Point → Bool
  | .release _ (.clearing ..) => true
  | _ => false

/-- Nobody clears the site before the cleanup is handled. -/
theorem Step.handled_of_clearing (h : a.Step m p m' t)
    (hv : p.Vouched isLast (m.view a.iteration a.site f) f marks) (he : p.Excused m a.iteration r)
    (hf : m.hasFailed a.iteration = false)
    (hgone : m.live? a.site = none → (m.view a.iteration a.site f).Handled ⟨.trial, .tearDown⟩)
    (ht : t.isAt Point.isClearing = true) :
    p.isClearing = true ∨ (m.view a.iteration a.site f).Handled ⟨.trial, .tearDown⟩ := by
  have out {α : Type} {phase : Phase} {next : α → Point} {o : Outcome α}
      (hn : ∀ v, (next v).isClearing = false)
      (ht : (onward phase next o).isAt Point.isClearing = true) : False :=
    Bool.noConfusion (ht.symm.trans (isAt_onward hn (fun _ => rfl) fun _ => rfl))
  cases h with
  | release h =>
    cases h with
    | cleaned h =>
      obtain ⟨_, _, _, rfl, hs⟩ := hv
      exact .inr (Turn.Step.handled (a := a) h hs he.2 hf)
    | abort hF => exact Bool.noConfusion (hF.symm.trans hf)
    | proceed => exact .inr (hgone hv.2.2.2.1)
    | clearing => exact .inl rfl
    | found | vacant | cleaning => cases ht
  | acquired | arrived | measured | released => exact (out (fun _ => rfl) ht).elim
  | setUpDone =>
    refine (out ?_ ht).elim
    intro _
    unfold afterSetUp
    split <;> rfl
  | @noteStop f ops o =>
    have hn : (a.afterMeasured f ops o).isClearing = false := by
      unfold afterMeasured
      split <;> rfl
    exact Bool.noConfusion (ht.symm.trans hn)
  | tearDownDone =>
    refine (out ?_ ht).elim
    intro _
    unfold afterTearDown
    split <;> rfl
  | _ => cases ht

/-- The points between the teardown of the last iteration and the turn at the cleanup. -/
def Point.isBound : Point → Bool
  | .tearDown _ _ (.leave o) => o.isOk
  | .enterRelease _ | .release _ .look | .release _ (.cleaning _ .enter) => true
  | _ => false

/-- Whoever is bound for the cleanup comes to it. -/
theorem Step.bound (h : a.Step m p m' t)
    (hv : p.Vouched isLast (m.view a.iteration a.site f) f marks)
    (hgone : m.live? a.site = none → (m.view a.iteration a.site f).Handled ⟨.trial, .tearDown⟩)
    (hl : a.iteration.isLast = true) (hp : p.isBound = true) :
    t.isAt Point.isBound = true ∨ (m.view a.iteration a.site f).Handled ⟨.trial, .tearDown⟩ ∨
      (m'.view a.iteration a.site f).Handled ⟨.trial, .tearDown⟩ := by
  cases h with
  | tearDown h => cases h <;> cases hp
  | @tearDownDone g o p _ r h =>
    cases h with
    | leave =>
      cases r with
      | ok v =>
        left
        change (a.afterTearDown o).isBound = true
        rw [afterTearDown, if_pos hl]
        rfl
      | failed e | crashed text => cases hp
    | _ => cases hp
  | enterRelease => exact .inl rfl
  | release h =>
    cases h with
    | found => exact .inl rfl
    | vacant hn => exact .inr (.inl (hgone hn))
    | @cleaning g q _ _ h =>
      obtain ⟨_, _, _, rfl, _⟩ := hv
      cases h with
      | enter =>
        refine .inr (.inr (.inr ?_))
        change (Gate.isActive ((Memory.setGate m g ⟨.trial, .tearDown⟩ .active).gate g
          ⟨.trial, .tearDown⟩)) = true
        rw [Memory.gate_setGate, if_pos rfl]
        rfl
      | queue hg => exact .inr (.inl (.inr (congrArg Gate.isActive hg)))
      | _ => cases hp
    | cleaned h => cases h <;> cases hp
    | _ => cases hp
  | released h =>
    cases h with
    | crashed h =>
      cases h
      cases hp
    | cleared => cases hp
  | _ => cases hp

/-- Whoever has committed the teardown of the iteration is bound for the
cleanup, if there is one. -/
theorem Step.bound_of_commit (h : a.Step m p m' t)
    (hp : p.turn? = some (⟨.iteration, .tearDown⟩, .commit)) :
    t.isAt Point.isBound = true := by
  cases h with
  | tearDown h =>
    cases hp
    cases h
    rfl
  | tearDownDone h =>
    cases hp
    cases h
  | @release _ p | @released _ p => cases p <;> cases hp
  | _ => cases hp

end Pass

/-! ### The conductor -/

def Conductor.Late (s : Signals) : Stand Conductor.Point Unit → Prop
  | .point .interrupt => True
  | .point .spoilWarmup => s.interrupted = true
  | .point .spoilWindow | .point .spoil => s.interrupted = true ∧ s.warmupHeld = false
  | .point .spoilWarmdown => s.interrupted = true ∧ s.warmupHeld = false ∧ s.spoiled = true
  | .ended _ =>
    s.interrupted = true ∧ s.warmupHeld = false ∧ s.spoiled = true ∧ s.warmdownHeld = false
  | .point _ => False

theorem Wait.notes_eq_nil {w : Wait} {now : Nat} {m m' : Memory} {p : Wait.Point}
    {notes : List Note} {t : Stand Wait.Point Unit} (h : w.step now m p = .act m' notes t) :
    notes = [] := by
  cases p with
  | doze => cases h
  | poll | checkFailed | checkInterrupted =>
    simp only [step] at h
    split at h <;> cases h <;> rfl

theorem Move.andThen_eq_act {μ σ τ α β : Type} {v : Move μ σ α} {embed : σ → τ}
    {onward : Outcome α → Stand τ β} {m : μ} {notes : List Note} {t : Stand τ β}
    (h : v.andThen embed onward = .act m notes t) :
    ∃ u, v = .act m notes u ∧ t = u.andThen embed onward := by
  cases v with
  | act m' notes' u =>
    cases h
    exact ⟨u, rfl, rfl⟩
  | ask | blocked => cases h

namespace Conductor
variable {c : Conductor} {m m' : Memory} {p : Point} {t : Stand Point Unit} {s s' : Signals}

/-- Only the judgement of a conductor notes that time is over. -/
theorem judged_of_timeOut {now : Nat} {u u' : Strand Point Unit} {es : List Event}
    (h : u.Advanced (c.step now m) m m' es u') {e : Event} (he : e ∈ es) (ht : e.isTimeOut = true) :
    u.stand = .point .judge ∧ u'.stand = .point .interrupt ∧ m' = m ∧
      c.Step m .judge m (.point .interrupt) := by
  cases h with
  | @act p m' notes t hp hv =>
    obtain ⟨n, hn, rfl⟩ := List.mem_map.mp he
    have silent (hnotes : notes = []) : False := List.not_mem_nil (hnotes ▸ hn)
    cases p with
    | judge =>
      simp only [step] at hv
      split at hv
      · rename_i hready
        cases hv
        exact ⟨hp, rfl, rfl, .timedOut hready⟩
      · cases hv
        cases hn
    | gather p | drain d p =>
      obtain ⟨u, hu, _⟩ := Move.andThen_eq_act hv
      exact (silent (Wait.notes_eq_nil hu)).elim
    | window stop =>
      cases stop with
      | none =>
        cases hv
        cases hn
      | some stop =>
        simp only [step] at hv
        split at hv <;> cases hv <;> cases hn
    | doze => cases hv
    | _ =>
      cases hv
      cases hn
  | call =>
    cases List.mem_singleton.mp he
    cases ht
  | reply =>
    cases List.mem_singleton.mp he
    cases ht

theorem Late.attended (h : Late s t) (ha : s.Attended s') : Late s' t := by
  have hi := ha.interrupted
  have hw := ha.warmupHeld
  have hs := ha.spoiled
  have hd := ha.warmdownHeld
  cases t with
  | ended o => exact ⟨hi.trans h.1, hw.trans h.2.1, hs.trans h.2.2.1, hd.trans h.2.2.2⟩
  | point p =>
    cases p with
    | interrupt => trivial
    | spoilWarmup => exact hi.trans h
    | spoilWindow | spoil => exact ⟨hi.trans h.1, hw.trans h.2⟩
    | spoilWarmdown => exact ⟨hi.trans h.1, hw.trans h.2.1, hs.trans h.2.2⟩
    | _ => exact h.elim

theorem Step.late (h : c.Step m p m' t) (hl : Late (m.signalsOf c.iteration) (.point p)) :
    Late (m'.signalsOf c.iteration) t := by
  have signalled {f : Signals → Signals} {t : Stand Point Unit}
      (hf : Late (f (m.signalsOf c.iteration)) t) :
      Late ((m.signal c.iteration f).signalsOf c.iteration) t := by
    rw [Memory.signalsOf_signal_self]
    exact hf
  cases h with
  | interrupt => exact signalled rfl
  | spoilWarmup => exact signalled ⟨hl, rfl⟩
  | spoilWindow => exact signalled hl
  | spoil => exact signalled ⟨hl.1, hl.2, rfl⟩
  | spoilWarmdown => exact signalled ⟨hl.1, hl.2.1, hl.2.2, rfl⟩
  | _ => exact hl.elim

end Conductor

/-! ### Groups -/

namespace Group

/-- Only members without a role make a healthy trial fail, and they never enter a warmup loop. -/
theorem Hale.clear {x : Execution} {m : Memory} {g : Group} {marks : List Nat} {f : Nat}
    (hH : g.Hale x m marks f) (hw : ∀ n ∈ marks, 2 ≤ n) : m.hasFailed g.iteration = false := by
  apply Bool.eq_false_iff.mpr
  intro hF
  obtain ⟨i, _, _, hr, _⟩ := hH.blameless hF
  have := hw 0 (List.mem_of_getElem? hr)
  omega

/-- What is certain of a healthy group once its conductor has noted that time is over. -/
structure Winding (x : Execution) (index : Nat) (h : List Entry) (m : Memory) (g : Group)
    (marks : List Nat) (f : Nat) : Prop where
  agreed : g.Agreed x index m marks f
  hale : g.Hale x m marks f
  warm : ∀ n ∈ marks, 2 ≤ n
  late : Conductor.Late (m.signalsOf g.iteration) g.conductor.stand
  gates : ∀ s, Owned (.gate s) (m.view g.iteration x.site f) g.stands
  accounted : ∀ k : Hook, k.Accounted (Began h (some index) k)
    (m.view g.iteration x.site f) marks g.members
  committed : ∀ {p : Pass.Point} {s : Stage}, .point p ∈ g.stands → p.turn? = some (s, .commit) →
    Returned h (some index) s
  /-- What was set up is so still, or its teardown has returned. -/
  up : ∀ l, l ≠ .invocation →
    (m.view g.iteration x.site f).Settled ⟨l, .setUp⟩ ∨ Returned h (some index) ⟨l, .tearDown⟩
  finished : ∀ t ∈ g.stands, Pass.isOver t = true →
    (m.view g.iteration x.site f).Handled ⟨.iteration, .tearDown⟩
  clearing : ∀ t ∈ g.stands, t.isAt Pass.Point.isClearing = true →
    (m.view g.iteration x.site f).Handled ⟨.trial, .tearDown⟩
  vacated : m.live? x.site = none → (m.view g.iteration x.site f).Handled ⟨.trial, .tearDown⟩
  bound : g.iteration.isLast = true →
    (m.view g.iteration x.site f).Settled ⟨.iteration, .tearDown⟩ →
    (m.view g.iteration x.site f).Handled ⟨.trial, .tearDown⟩ ∨
      ∃ t ∈ g.stands, t.isAt Pass.Point.isBound = true
  kept : g.iteration.isLast = false →
    m.live? x.site = some f ∧ ¬ Began h (some index) (.stage ⟨.trial, .tearDown⟩)

namespace Winding
variable {x : Execution} {index f i r : Nat} {h : List Entry} {m m' : Memory} {g : Group}
  {marks : List Nat} {w : Execution.World} {es : List Event} {s : Strand Pass.Point Report}
  {p : Pass.Point} {q : Request}

theorem clear (hw : g.Winding x index h m marks f) : m.hasFailed g.iteration = false :=
  hw.hale.clear hw.warm

/-- Whoever is bound for the cleanup stays so until the cleanup is handled; the commit of the
teardown sends somebody there. -/
theorem bound_step (hw : g.Winding x index h m marks f) (hi : g.stands[i]? = some (.point p))
    {t : Stand Pass.Point Report} (ht : (x.pass g.iteration i).Step m p m' t)
    (hd : Pass.Deed f p t (m.view g.iteration x.site f) (m'.view g.iteration x.site f))
    (hp : p.Passed r) (h2 : 2 ≤ r)
    (handled : (m.view g.iteration x.site f).Handled ⟨.trial, .tearDown⟩ →
      (m'.view g.iteration x.site f).Handled ⟨.trial, .tearDown⟩)
    (hl : g.iteration.isLast = true)
    (hs : (m'.view g.iteration x.site f).Settled ⟨.iteration, .tearDown⟩) :
    (m'.view g.iteration x.site f).Handled ⟨.trial, .tearDown⟩ ∨
      ∃ u ∈ g.stands.set i t, u.isAt Pass.Point.isBound = true := by
  have hv : p.Vouched g.iteration.isLast (m.view g.iteration x.site f) f marks :=
    hw.agreed.2.vouched hi
  obtain ⟨hlt, _⟩ := List.getElem?_eq_some_iff.mp hi
  obtain ⟨hpub, hset⟩ := hp.warm h2
  rcases hd.settles hset hpub hs with hs | hcommit
  · rcases hw.bound hl hs with hv' | ⟨u, hu, hb⟩
    · exact .inl (handled hv')
    · obtain ⟨j, hj⟩ := List.mem_iff_getElem?.mp hu
      by_cases hij : i = j
      · subst hij
        cases hi.symm.trans hj
        rcases ht.bound hv hw.vacated hl hb with hb | hv' | hv'
        · exact .inr ⟨t, List.mem_set hlt _, hb⟩
        · exact .inl (handled hv')
        · exact .inl hv'
      · exact .inr ⟨u, List.mem_of_getElem? ((List.getElem?_set_ne hij).trans hj), hb⟩
  · exact .inr ⟨t, List.mem_set hlt _, ht.bound_of_commit hcommit⟩

theorem stepped (hw : g.Winding x index h m marks f)
    (hi : g.members[i]? = some s) (hp : s.stand = .point p) {t : Stand Pass.Point Report}
    (ht : (x.pass g.iteration i).Step m p m' t) (hu : ∀ r, marks[i]? = some r → Pass.Unharmed r t)
    (he : ∀ e ∈ es, e.begun? = none)
    (hc : ∀ q s, t = .point q → q.turn? = some (s, .commit) →
      Returned (h ++ es.map (w.entry (.member i))) (some index) s) :
    ∃ marks', { g with members := g.members.set i ⟨t, false⟩ }.Winding x index
      (h ++ es.map (w.entry (.member i))) m' marks' f := by
  have hi' : g.stands[i]? = some (.point p) := hp ▸ getElem?_stands hi
  have hmem := List.mem_of_getElem? hi'
  have hg : { g with members := g.members.set i ⟨t, false⟩ }.stands = g.stands.set i t :=
    stands_set ..
  have hf := hw.clear
  have hit : { g with members := g.members.set i ⟨t, false⟩ }.iteration = g.iteration := rfl
  obtain ⟨r, r', hr, hpr, ht', hle, hkeep, ha'⟩ := hw.agreed.member hit hi' ht hg rfl
  have hH' := hw.hale.member hw.agreed hi' ht hr hpr ht' hle hkeep (hu r hr) hit hg
  have h2 := hw.warm r (List.mem_of_getElem? hr)
  obtain ⟨hP, hA⟩ := hw.agreed
  have hv : p.Vouched g.iteration.isLast (m.view g.iteration x.site f) f marks := hA.vouched hi'
  have hex : p.Excused m g.iteration r := hP.excused hi' hr
  have hd := hA.deed hi' ht hr hpr
  obtain ⟨hpub, hset⟩ := hpr.warm h2
  have hbegan (k : Hook) : Began (h ++ es.map (w.entry (.member i))) (some index) k ↔
      Began h (some index) k :=
    Execution.began_of_quiet he
  -- what is handled stays so
  have handled {l : Level} (hv' : (m.view g.iteration x.site f).Handled ⟨l, .tearDown⟩) :
      (m'.view g.iteration x.site f).Handled ⟨l, .tearDown⟩ :=
    hd.handled hset hpub (fun o ho => hv.settled_of_leave hex hf ho) hv'
  have others {P : Prop} (b : Stand Pass.Point Report → Bool)
      (hold : ∀ u ∈ g.stands, b u = true → P) (hown : b t = true → P) :
      ∀ u ∈ { g with members := g.members.set i ⟨t, false⟩ }.stands, b u = true → P := by
    rw [hg]
    intro u hu hb
    rcases List.mem_or_eq_of_mem_set hu with hu | rfl
    · exact hold u hu hb
    · exact hown hb
  exact ⟨marks.set i r', {
    agreed := ha'
    hale := hH'
    warm := Accord.le_of_mem_raised hr hle hw.warm
    late := hw.late.attended ht.attended
    gates := hg ▸ fun s => (hw.gates s).deed hi' hd (.inr hpub)
    accounted := by
      intro k hb
      refine (hw.accounted k).step hi hp (hA.exclusive k.lock) hd.failed ht.isAtWork
        (ht.hasBegun fun _ => hv.fixture) (fun _ hclosed => ?_) ((hbegan k).mp hb)
      refine (hclosed.deed hd hv (fun _ => hw.warm) (fun _ => hset _) fun _ => hpub).imp_right ?_
      exact fun hm => ⟨hm.1, Accord.le_of_mem_raised hr hle hm.2⟩
    committed := by
      rw [hg]
      intro q s hq hs
      rcases List.mem_or_eq_of_mem_set hq with hq | hq
      · exact (hw.committed hq hs).append _
      · exact hc q s hq.symm hs
    up := by
      intro l hl
      rcases hw.up l hl with hs | hret
      · exact (hd.keeps_setUp hpub hs).imp_right fun hc => (hw.committed hmem hc).append _
      · exact .inr (hret.append _)
    finished := by
      refine others Pass.isOver (fun u hu hb => handled (hw.finished u hu hb)) fun hb => ?_
      rcases ht.handled_of_over hv hex hpr h2 (hu r hr) hf hb with hp | hv'
      · exact handled (hw.finished _ hmem hp)
      · exact handled hv'
    clearing := by
      refine others (Stand.isAt · Pass.Point.isClearing)
        (fun u hu hb => handled (hw.clearing u hu hb)) fun hb => ?_
      rcases ht.handled_of_clearing hv hex hf hw.vacated hb with hp | hv'
      · exact handled (hw.clearing _ hmem hp)
      · exact handled hv'
    vacated := by
      intro hl
      rcases hd.vacates hl with hl | ⟨y, o, rfl⟩
      · exact handled (hw.vacated hl)
      · exact handled (hw.clearing _ hmem rfl)
    bound := by
      rw [hg]
      exact hw.bound_step hi' ht hd hpr h2 handled
    kept := by
      intro hl
      obtain ⟨hlive, hn⟩ := hw.kept hl
      refine ⟨hd.keeps_live hpub ?_ hlive, fun hb => hn ((hbegan _).mp hb)⟩
      rintro y o rfl
      exact Bool.noConfusion (hv.2.2.1.symm.trans hl) }⟩

theorem still (hw : g.Winding x index h m marks f) {who : Execution.Actor} {g' : Group}
    (ha : g'.Agreed x index m' marks f) (hH : g'.Hale x m' marks f)
    (hc : g'.iteration = g.iteration) (hs : g'.stands = g.stands)
    (hlate : Conductor.Late (m'.signalsOf g.iteration) g'.conductor.stand)
    (hlive : m'.live? x.site = m.live? x.site)
    (hfix : (m'.view g.iteration x.site f).fixture = (m.view g.iteration x.site f).fixture)
    (hacc : ∀ k : Hook, k.Accounted (Began (h ++ es.map (w.entry who)) (some index) k)
      (m'.view g.iteration x.site f) marks g'.members)
    (hn : g.iteration.isLast = false → ¬ Began h (some index) (.stage ⟨.trial, .tearDown⟩) →
      ¬ Began (h ++ es.map (w.entry who)) (some index) (.stage ⟨.trial, .tearDown⟩)) :
    g'.Winding x index (h ++ es.map (w.entry who)) m' marks f := by
  have settled (s : Stage) : (m'.view g.iteration x.site f).Settled s ↔
      (m.view g.iteration x.site f).Settled s := by
    unfold View.Settled
    rw [hfix]
  have taken (s : Stage) : (m'.view g.iteration x.site f).isTaken (.gate s) =
      (m.view g.iteration x.site f).isTaken (.gate s) :=
        congrArg (fun t : Fixture => (t.gates.get s).isActive) hfix
  have handled (s : Stage) : (m'.view g.iteration x.site f).Handled s ↔
      (m.view g.iteration x.site f).Handled s := by
    unfold View.Handled
    rw [settled, taken]
  refine ⟨ha, hH, hw.warm, ?_, ?_, ?_, ?_, ?_, ?_, ?_, ?_, ?_, ?_⟩ <;>
    simp only [hc, hs, settled, handled, hlive, Owned, taken]
  · exact hlate
  · exact hw.gates
  · exact hacc
  · exact fun hp hs => (hw.committed hp hs).append _
  · exact fun l hl => (hw.up l hl).imp_right fun hr => hr.append _
  · exact hw.finished
  · exact hw.clearing
  · exact hw.vacated
  · exact hw.bound
  · exact fun hl => ⟨(hw.kept hl).1, hn hl (hw.kept hl).2⟩

theorem called (hw : g.Winding x index h m marks f) (hi : g.members[i]? = some s)
    (hp : s.stand = .point p) (hs : s.calling = false)
    (hc : (x.pass g.iteration i).call? m p = some q) :
    { g with members := g.members.set i ⟨.point p, true⟩ }.Winding x index
      (h ++ [Event.called q].map (w.entry (.member i))) m marks f := by
  obtain ⟨_, hv, _⟩ := hw.agreed.stance hi hp
  have hg : { g with members := g.members.set i ⟨.point p, true⟩ }.stands = g.stands :=
    stands_set_self hi hp.symm
  obtain ⟨hlt, _⟩ := List.getElem?_eq_some_iff.mp hi
  have hbegan {k : Hook} (hb : Began (h ++ [Event.called q].map (w.entry (.member i)))
      (some index) k) :
      Began h (some index) k ∨ q.hook? = some k := by
    apply (Execution.began_append.mp hb).imp_right
    rintro ⟨⟨e, he, hk⟩, _⟩
    cases List.mem_singleton.mp he
    exact hk
  refine hw.still (hw.agreed.rest rfl hg rfl) (hw.hale.rest rfl hg) rfl hg hw.late rfl rfl ?_ ?_
  · intro k hb
    rcases hbegan hb with hb | hk
    · refine (hw.accounted k).rest hi hp.symm ?_ hb
      intro hbegun
      rw [hp, hs] at hbegun
      exact Hook.hasBegun_calling hbegun
    · exact .inr (.inr ⟨_, List.mem_set hlt _, (Hook.work_of_call hc hk).2.2⟩)
  · intro hl hn hb
    rcases hbegan hb with hb | hk
    · exact hn hb
    · -- only in the last iteration somebody comes to call the cleanup
      have hlast := ((hv.turn (Pass.turn?_of_call hc hk (by decide))).2.2 rfl).2
      exact Bool.noConfusion (hlast.symm.trans hl)

/-- A step of a member whose calls return: it calls no hook twice, and the group
goes on winding down. -/
theorem played (hw : g.Winding x index h m marks f) (hwi : w.point.index? = some index)
    (hi : g.members[i]? = some s) {s' : Strand Pass.Point Report}
    (hplayed : (x.pass g.iteration i).Played m s m' es s') (hes : ∀ e ∈ es, e.isMishap = false) :
    OnceEach h (es.map (w.entry (.member i))) ∧
      ∃ marks', { g with members := g.members.set i s' }.Winding x index
        (h ++ es.map (w.entry (.member i))) m' marks' f := by
  have hi' := getElem?_stands hi
  have hu (r : Nat) (hr : marks[i]? = some r) : Pass.Unharmed r s'.stand :=
    hplayed.unharmed hes (hw.agreed.1.attendance.passed hi' hr) (hw.hale.unharmed hi' hr)
  cases hplayed with
  | @rest p _ _ hp hc hs he =>
    have hg := stands_set_self hi hs
    have hbegun (e : Event) (hmem : e ∈ es) : e.begun? = none := Event.begun?_of_quiet (he e hmem)
    refine ⟨.of_none hbegun, marks, ?_⟩
    refine hw.still (hw.agreed.rest rfl hg rfl) (hw.hale.rest rfl hg) rfl hg hw.late rfl rfl ?_ ?_
    · intro k hb
      refine (hw.accounted k).rest hi hs (fun hb => ?_) ((Execution.began_of_quiet hbegun).mp hb)
      rw [hp] at hb
      rw [hs, hp]
      exact Hook.hasBegun_of_quiet hc hb _
    · exact fun _ hn hb => hn ((Execution.began_of_quiet hbegun).mp hb)
  | @act p _ _ t hp hc ht he =>
    have hbegun (e : Event) (hmem : e ∈ es) : e.begun? = none := Event.begun?_of_quiet (he e hmem)
    refine ⟨.of_none hbegun, hw.stepped hi hp ht hu hbegun ?_⟩
    intro o s hto hs
    obtain ⟨value, hcall⟩ :=
      Pass.call?_of_hook (a := x.pass g.iteration i) (m := m) (Pass.Step.commit (hto ▸ ht) hs)
    cases hc.symm.trans hcall
  | @call p q hp hc hs =>
    refine ⟨.singleton fun k hk => ?_, marks, hw.called hi hp hs hc⟩
    change ¬ Began h w.point.index? k
    rw [hwi]
    exact hw.agreed.not_began (hw.accounted k) hi hp hs hc hk
  | @reply p q r k now hp hc hs hk ht hd =>
    have hbegun (e : Event) (he : e ∈ [Event.answered q r]) : e.begun? = none := by
      cases List.mem_singleton.mp he
      rfl
    refine ⟨.of_none hbegun, hw.stepped hi hp ht hu hbegun ?_⟩
    intro o s hko hs
    obtain ⟨hq, v, rfl⟩ := Pass.commit_of_reply hk ht hko hs
    exact ⟨_, List.mem_append_right _ List.mem_cons_self, hwi, q, v, rfl, hq⟩

theorem conducted (hw : g.Winding x index h m marks f) {now : Nat}
    {s' : Strand Conductor.Point Unit}
    (hadv : g.conductor.Advanced ((x.conductor g.iteration).step now m) m m' es s') :
    { g with conductor := s' }.Winding x index (h ++ es.map (w.entry .conductor)) m' marks f := by
  have hbegun (e : Event) (he : e ∈ es) : e.begun? = none :=
    Event.begun?_of_quiet (Conductor.quiet_of_advanced hadv e he)
  have hbegan (k : Hook) : Began (h ++ es.map (w.entry .conductor)) (some index) k ↔
      Began h (some index) k :=
    Execution.began_of_quiet hbegun
  rcases hadv.yields with ⟨rfl, hs⟩ | ⟨p, hp, hy⟩
  · refine hw.still (hw.agreed.rest rfl rfl hs) (hw.hale.rest rfl rfl) rfl rfl ?_ rfl rfl ?_ ?_
    · exact hs ▸ hw.late
    · exact fun k hb => hw.accounted k ((hbegan k).mp hb)
    · exact fun _ hn hb => hn ((hbegan _).mp hb)
  · have ht := Conductor.step_of_yields hy
    have hv : m'.view g.iteration x.site f = m.view g.iteration x.site f ∨
        m'.view g.iteration x.site f = { m.view g.iteration x.site f with interrupted := true } :=
      (ht.view x.site f).imp_right And.right
    have hfix : (m'.view g.iteration x.site f).fixture = (m.view g.iteration x.site f).fixture := by
      rcases hv with hv | hv <;> rw [hv]
    refine hw.still (hw.agreed.conductor rfl rfl hp ht rfl) (hw.hale.conductor ht rfl rfl) rfl rfl
      (ht.late (hp ▸ hw.late)) (ht.live? x.site) hfix ?_ ?_
    · intro k hb
      have hacc := hw.accounted k ((hbegan k).mp hb)
      rcases hv with hv | hv <;> rw [hv]
      · exact hacc
      · cases k <;> exact hacc
    · exact fun _ hn hb => hn ((hbegan _).mp hb)

theorem no_result (hw : g.Winding x index h m marks f) {o : Outcome Report} (ho : o ∈ g.outcomes) :
    o.isOk = false := by
  cases o with
  | failed e | crashed text => rfl
  | ok r =>
    obtain ⟨i, hi⟩ := List.mem_iff_getElem?.mp (mem_outcomes.mp ho)
    obtain ⟨_, hI, _⟩ := hw.agreed.2.of_ok hi
    have hfree : Pass.Released x.trial.benchmark.mode (m.signalsOf g.iteration) (.ended (.ok r)) :=
      hw.agreed.1.released hi
    have hknows := hw.agreed.1.knows
    have hlate := hw.late
    have hnot : ¬ (m.signalsOf g.iteration).interrupted = true := Bool.eq_false_iff.mp hI
    cases hc : g.conductor.stand with
    | ended o =>
      rw [hc] at hlate
      exact absurd hlate.1 hnot
    | point p =>
      rw [hc] at hlate hknows
      cases p with
      | interrupt => exact Bool.noConfusion ((hfree hknows.1).symm.trans hknows.2.1)
      | spoilWarmup => exact absurd hlate hnot
      | spoilWindow | spoil | spoilWarmdown => exact absurd hlate.1 hnot
      | _ => exact hlate.elim

/-- Nobody has a result, and nobody reports more than that somebody else has made it end. -/
theorem secondary (hw : g.Winding x index h m marks f) {o : Outcome Report} (ho : o ∈ g.outcomes) :
    ∃ e, o = .failed e ∧ e.isSecondary = true := by
  obtain ⟨i, hi⟩ := List.mem_iff_getElem?.mp (mem_outcomes.mp ho)
  obtain ⟨r, hr, _⟩ := hw.agreed.1.attendance.mark hi
  have hu := hw.hale.unharmed hi hr
  have h2 := hw.warm r (List.mem_of_getElem? hr)
  cases o with
  | failed e => exact ⟨e, rfl, hu.resolve_right (by omega)⟩
  | crashed text => exact hu.elim
  | ok v => exact Bool.noConfusion (hw.no_result ho)

end Winding

/-- While the warmdown loops are held, every member of an iteration that is not halted and has seen
all enter their warmup loops is loaded. -/
theorem Paced.loaded {x : Execution} {index : Nat} {m : Memory} {g : Group} {marks : List Nat}
    (hP : g.Paced x index m marks) (hm : x.trial.benchmark.mode.hasWarmLoops = true)
    (hn : x.threads ≤ (m.signalsOf g.iteration).warmupReady)
    (hd : (m.signalsOf g.iteration).warmdownHeld = true) (hh : ¬ m.Halted g.iteration) {i : Nat}
    {t : Stand Pass.Point Report} (hi : g.stands[i]? = some t) :
    ∃ r, marks[i]? = some r ∧ r < 4 ∧ ∃ q, t = .point q ∧ q.isLoaded = true := by
  obtain ⟨r, hr, hp⟩ := hP.attendance.mark hi
  exact ⟨r, hr, Pass.loaded hp (hP.released hi) (hP.excused hi hr) hm hh hd
    (hP.all_warm hm hn (List.mem_of_getElem? hr))⟩

/-- As long as that is so, not everybody has come to the teardown. -/
theorem Paced.early {x : Execution} {index : Nat} {m : Memory} {g : Group} {marks : List Nat}
    (hP : g.Paced x index m marks) (hm : x.trial.benchmark.mode.hasWarmLoops = true)
    (hn : x.threads ≤ (m.signalsOf g.iteration).warmupReady)
    (hd : (m.signalsOf g.iteration).warmdownHeld = true) (hh : ¬ m.Halted g.iteration) :
    ¬ ∀ r ∈ marks, r = 4 := by
  intro h4
  have hpos : 0 < g.stands.length := hP.length ▸ x.threads.pos
  obtain ⟨r, hr, hlt, _⟩ := hP.loaded hm hn hd hh (List.getElem?_eq_getElem hpos)
  have := h4 r (List.mem_of_getElem? hr)
  omega

/-- In a healthy group everybody is then between the two warm loops: past the set-up,
and not at a teardown. -/
theorem Hale.between {x : Execution} {index f : Nat} {m : Memory} {g : Group} {marks : List Nat}
    (hH : g.Hale x m marks f) (hP : g.Paced x index m marks)
    (hm : x.trial.benchmark.mode.hasWarmLoops = true)
    (hn : x.threads ≤ (m.signalsOf g.iteration).warmupReady)
    (hd : (m.signalsOf g.iteration).warmdownHeld = true) (hh : ¬ m.Halted g.iteration)
    {t : Stand Pass.Point Report} (ht : t ∈ g.stands) :
    Pass.isPast t = true ∧ Pass.isEquipped t = true ∧ Pass.isOver t = false ∧
      t.isAt Pass.Point.isClearing = false := by
  obtain ⟨i, hi⟩ := List.mem_iff_getElem?.mp ht
  obtain ⟨r, hr, _, q, rfl, hq⟩ := hP.loaded hm hn hd hh hi
  have hu := hH.unharmed hi hr
  cases q with
  | condemn => exact hu.elim
  | warmupGate | warmupWork | noteStart | measure | noteStop | enterWarmdown | warmdownGate
  | warmdownWork =>
    exact ⟨rfl, rfl, rfl, rfl⟩
  | _ => cases hq

/-- Where the conductor of an orderly and healthy group notes that time is over, the
group begins to wind down. -/
theorem Orderly.winding {x : Execution} {index f f' now : Nat} {h : List Entry}
    {m m' : Memory} {g : Group} {marks marks' : List Nat} {w : Execution.World} {es : List Event}
    {e : Event} {s' : Strand Conductor.Point Unit} (ho : g.Orderly x index h m marks f)
    (ha : g.Agreed x index m marks f) (hH : g.Hale x m marks' f')
    (ha' : g.Agreed x index m marks' f') (hans : Execution.Answered h)
    (hadv : g.conductor.Advanced ((x.conductor g.iteration).step now m) m m' es s') (he : e ∈ es)
    (ht : e.isTimeOut = true) :
    ∃ marks f, { g with conductor := s' }.Winding x index
      (h ++ es.map (w.entry .conductor)) m' marks f := by
  obtain ⟨hj, hs', rfl, hstep⟩ := Conductor.judged_of_timeOut hadv he ht
  have hbegan (k : Hook) : Began (h ++ es.map (w.entry .conductor)) (some index) k ↔
      Began h (some index) k :=
    Execution.began_of_quiet fun e he =>
      Event.begun?_of_quiet (Conductor.quiet_of_advanced hadv e he)
  have hknows := ha'.1.knows
  rw [hj] at hknows
  obtain ⟨hm, hheld, hn⟩ := hknows
  have hn : x.threads ≤ (m'.signalsOf g.iteration).warmupReady := ha'.1.threads ▸ hn
  have warm (n : Nat) (hn' : n ∈ marks') : 2 ≤ n := ha'.1.all_warm hm hn hn'
  have hh : ¬ m'.Halted g.iteration := by
    rintro (hF | hI)
    · exact Bool.noConfusion (hF.symm.trans (hH.clear warm))
    · exact Bool.noConfusion (hI.symm.trans ho.calm)
  have hpos : 0 < g.stands.length := ha.1.length ▸ x.threads.pos
  have hmem : g.stands[0] ∈ g.stands := List.getElem_mem hpos
  have between {t : Stand Pass.Point Report} (ht : t ∈ g.stands) :=
    hH.between ha'.1 hm hn hheld hh ht
  have early {marks : List Nat} (hP : g.Paced x index m' marks) := hP.early hm hn hheld hh
  have undeparted : ¬ (m'.view g.iteration x.site f').Departed marks' := by
    rintro (hI | h4)
    · exact hh (.inr hI)
    · exact early ha'.1 h4
  have hlive : m'.live? x.site ≠ none := by
    intro hl
    rcases hH.vacant hl with hu | hd
    · exact Bool.noConfusion ((between hmem).2.1.symm.trans (hu _ hmem))
    · exact undeparted hd
  obtain ⟨n, hl⟩ := Option.ne_none_iff_exists'.mp hlive
  cases ha.2.live hl
  cases ha'.2.live hl
  have hup : (m'.view g.iteration x.site f).Settled ⟨.iteration, .setUp⟩ := by
    refine (ho.staged.past hmem (between hmem).1).2.resolve_right ?_
    rintro ⟨e, he, hi, q, v, hev, hk⟩
    have hmade := hans e he q _ _ hev hk
    exact early ha.1 (ho.tornDown (hi ▸ hmade.began))
  exact ⟨marks', f, {
    agreed := ha'.conductor rfl rfl hj hstep hs'
    hale := hH.conductor hstep rfl rfl
    warm := warm
    late := by
      change Conductor.Late _ s'.stand
      rw [hs']
      trivial
    gates := hH.gates.resolve_left fun hn => hlive hn.1
    accounted := by
      intro k hb
      refine (ho.accounted k ((hbegan k).mp hb)).imp_left fun hc => ?_
      exact hc.imp_right fun hs => ⟨hs.1, warm⟩
    committed := fun hp hs => (ho.staged.committed hp hs).append _
    up := by
      intro l hl'
      cases l with
      | trial => exact .inl ((hH.trialUp hlive).resolve_right fun hd => undeparted hd.2)
      | iteration => exact .inl hup
      | invocation => exact absurd rfl hl'
    finished := fun t ht hdone => Bool.noConfusion (hdone.symm.trans (between ht).2.2.1)
    clearing := fun t ht hc => Bool.noConfusion (hc.symm.trans (between ht).2.2.2)
    vacated := fun hn => absurd hn hlive
    bound := fun _ hs => Bool.noConfusion (hs.symm.trans hup)
    kept := fun _ => ⟨hl, fun hb => early ha.1 (ho.cleaned ((hbegan _).mp hb)).1⟩ }⟩

end Group
end LoadBench
