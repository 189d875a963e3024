import LoadBench.Proofs.Construction

/-!
# Who is at work

Whoever calls a hook holds its lock (`Hook.lock`) from before the decision that the hook is due
until the outcome is on record: the hook is done (`Hook.IsDone`), or the trial is failing. Nobody
gets to work at a hook in a failing trial. So as soon as a hook was called, it is done, or the trial
is failing and nobody is at work at it, or somebody has begun with it (`Hook.Accounted`), and none
of these lets anybody else call it.
-/

namespace LoadBench

/-! ### Work at a hook -/

namespace Hook

/-- A fixture is made by its construction and the set-up of its trial level. -/
def isMaking : Hook → Bool
  | .construct => true
  | .stage s => s = ⟨.trial, .setUp⟩

def lock : Hook → Lock
  | .construct => .site
  | .stage s => if s = ⟨.trial, .setUp⟩ then .site else .gate s

def isSetUp : Hook → Bool
  | .construct => true
  | .stage s => s.isSetUp

def IsDone (v : View) : Hook → Prop
  | .construct => v.live ≠ none
  | .stage s => if s = ⟨.trial, .setUp⟩ then v.live ≠ none else v.Settled s

theorem isDone_of_isMaking {k : Hook} {v : View} (hk : k.isMaking = true) :
    k.IsDone v ↔ v.live ≠ none := by
  cases k with
  | construct => exact Iff.rfl
  | stage s =>
    cases of_decide_eq_true hk
    exact Iff.rfl

theorem isDone_stage {s : Stage} {v : View} (hs : s ≠ ⟨.trial, .setUp⟩) :
    IsDone v (.stage s) ↔ v.Settled s := by
  rw [IsDone, if_neg hs]

theorem isSetUp_of_isMaking {k : Hook} (hk : k.isMaking = true) : k.isSetUp = true := by
  cases k with
  | construct => rfl
  | stage s =>
    cases of_decide_eq_true hk
    rfl

/-- There is nothing to do for the hook any more, and nobody will come to it. -/
def Closed (k : Hook) (v : View) (marks : List Nat) : Prop :=
  k.IsDone v ∨ k.isSetUp = true ∧ ∀ r ∈ marks, 2 ≤ r

end Hook

namespace Turn.Point

def isAtWork : Turn.Point → Bool
  | .checkReady | .hook | .condemn _ | .commit => true
  | _ => false

/-- The hook of the turn was called, given whether a call is in progress. -/
def hasBegun (calling : Bool) : Turn.Point → Bool
  | .hook => calling
  | .condemn _ | .commit => true
  | _ => false

variable (p : Turn.Point) {c : Bool}

theorem isOwner_of_isAtWork (h : p.isAtWork = true) : p.isOwner = true := by
  cases p <;> first | rfl | exact Bool.noConfusion h

theorem isAtWork_of_hasBegun (h : p.hasBegun c = true) : p.isAtWork = true := by
  cases p <;> first | rfl | exact Bool.noConfusion h

theorem hasBegun_calling (h : p.hasBegun false = true) : p.hasBegun true = true := by
  cases p <;> first | rfl | exact Bool.noConfusion h

end Turn.Point

namespace Acquire.Point

def isAtWork : Acquire.Point → Bool
  | .construct | .setUp _ | .publish _ | .condemn _ => true
  | _ => false

def hasBegun (k : Hook) (calling : Bool) : Acquire.Point → Bool
  | .construct => k = .construct && calling
  | .setUp _ => k = .construct || calling
  | .publish _ | .condemn _ => true
  | _ => false

variable (p : Acquire.Point) {k : Hook} {c : Bool}

theorem isInside_of_isAtWork (h : p.isAtWork = true) : p.isInside = true := by
  cases p <;> first | rfl | exact Bool.noConfusion h

theorem isAtWork_of_hasBegun (h : p.hasBegun k c = true) : p.isAtWork = true := by
  cases p <;> first | rfl | exact Bool.noConfusion h

theorem hasBegun_calling (h : p.hasBegun k false = true) : p.hasBegun k true = true := by
  cases p with
  | construct => exact Bool.noConfusion ((Bool.and_false _).symm.trans h)
  | setUp value => exact Bool.or_true _
  | _ => exact h

end Acquire.Point

namespace Hook

def isAtWork (k : Hook) : Pass.Point → Bool
  | .acquire p => k.isMaking && p.isAtWork
  | .setUp _ p => k = .stage ⟨.iteration, .setUp⟩ && p.isAtWork
  | .tearDown _ _ p => k = .stage ⟨.iteration, .tearDown⟩ && p.isAtWork
  | .release _ (.cleaning _ p) => k = .stage ⟨.trial, .tearDown⟩ && p.isAtWork
  | _ => false

def hasBegun (k : Hook) (calling : Bool) : Pass.Point → Bool
  | .acquire p => k.isMaking && p.hasBegun k calling
  | .setUp _ p => k = .stage ⟨.iteration, .setUp⟩ && p.hasBegun calling
  | .tearDown _ _ p => k = .stage ⟨.iteration, .tearDown⟩ && p.hasBegun calling
  | .release _ (.cleaning _ p) => k = .stage ⟨.trial, .tearDown⟩ && p.hasBegun calling
  | _ => false

variable {k : Hook} {c : Bool} {p : Pass.Point}

theorem lock_of_isMaking (h : k.isMaking = true) : k.lock = .site := by
  cases k with
  | construct => rfl
  | stage s =>
    cases of_decide_eq_true h
    rfl

theorem holds_of_isAtWork (h : k.isAtWork p = true) : p.holds k.lock = true := by
  cases p with
  | acquire p =>
    obtain ⟨hk, hp⟩ := Bool.and_eq_true_iff.mp h
    rw [lock_of_isMaking hk, Pass.Point.holds_acquire]
    exact p.isInside_of_isAtWork hp
  | setUp f p | tearDown f r p =>
    obtain ⟨hk, hp⟩ := Bool.and_eq_true_iff.mp h
    cases of_decide_eq_true hk
    rw [Pass.Point.holds_turn rfl rfl]
    exact p.isOwner_of_isAtWork hp
  | release r p =>
    cases p with
    | cleaning f p =>
      obtain ⟨hk, hp⟩ := Bool.and_eq_true_iff.mp h
      cases of_decide_eq_true hk
      rw [Pass.Point.holds_turn rfl rfl]
      exact p.isOwner_of_isAtWork hp
    | _ => cases h
  | _ => cases h

theorem isAtWork_of_hasBegun (h : k.hasBegun c p = true) : k.isAtWork p = true := by
  cases p with
  | acquire p | setUp f p | tearDown f r p =>
    obtain ⟨hk, hp⟩ := Bool.and_eq_true_iff.mp h
    exact Bool.and_eq_true_iff.mpr ⟨hk, p.isAtWork_of_hasBegun hp⟩
  | release r p =>
    cases p with
    | cleaning f p =>
      obtain ⟨hk, hp⟩ := Bool.and_eq_true_iff.mp h
      exact Bool.and_eq_true_iff.mpr ⟨hk, p.isAtWork_of_hasBegun hp⟩
    | _ => cases h
  | _ => cases h

/-- The beginning of a call takes nothing back. -/
theorem hasBegun_calling (h : k.hasBegun false p = true) : k.hasBegun true p = true := by
  cases p with
  | acquire p | setUp f p | tearDown f r p =>
    obtain ⟨hk, hp⟩ := Bool.and_eq_true_iff.mp h
    exact Bool.and_eq_true_iff.mpr ⟨hk, p.hasBegun_calling hp⟩
  | release r p =>
    cases p with
    | cleaning f p =>
      obtain ⟨hk, hp⟩ := Bool.and_eq_true_iff.mp h
      exact Bool.and_eq_true_iff.mpr ⟨hk, p.hasBegun_calling hp⟩
    | _ => cases h
  | _ => cases h

/-- Where no hook is called, it does not matter whether a call is in progress. -/
theorem hasBegun_of_quiet {a : Pass} {m : Memory} (hc : a.call? m p = none)
    (h : k.hasBegun c p = true) (c' : Bool) : k.hasBegun c' p = true := by
  cases p with
  | acquire p | setUp f p | tearDown f r p => cases p <;> first | exact h | cases hc
  | release r p =>
    cases p with
    | cleaning f p => cases p <;> first | exact h | cases hc
    | _ => cases h
  | _ => cases h

/-- Whoever calls a hook is at work at it, and has begun with it once the call is in progress. -/
theorem work_of_call {a : Pass} {m : Memory} {q : Request} (hc : a.call? m p = some q)
    (hk : q.hook? = some k) :
    k.isAtWork p = true ∧ k.hasBegun false p = false ∧ k.hasBegun true p = true := by
  cases p with
  | acquire p | setUp f p | tearDown f r p =>
    cases p <;> cases hc <;> cases hk <;> exact ⟨rfl, rfl, rfl⟩
  | release r p =>
    cases p with
    | cleaning f p =>
      cases p <;> cases hc
      cases hk
      exact ⟨rfl, rfl, rfl⟩
    | _ => cases hc
  | measure f ops p =>
    cases p <;> cases hc
    cases hk
  | warmupWork | warmdownWork => cases hc; cases hk
  | _ => cases hc

end Hook

/-! ### Getting to work, and getting done -/

theorem Turn.Step.isAtWork {t : Turn} {m m' : Memory} {p q : Turn.Point}
    (h : t.Step m p m' (.point q)) (hq : q.isAtWork = true) :
    p.isAtWork = true ∨ m.hasFailed t.iteration = false := by
  cases h with
  | proceed hf => exact .inr hf
  | due | returned | mishap => exact .inl rfl
  | _ => cases hq

theorem Acquire.Step.isAtWork {a : Acquire} {m m' : Memory} {p q : Acquire.Point}
    (h : a.Step m p m' (.point q)) (hq : q.isAtWork = true) :
    p.isAtWork = true ∨ m.hasFailed a.iteration = false := by
  cases h with
  | proceed hf => exact .inr hf
  | constructed | mishap | setUp | setUpMishap => exact .inl rfl
  | _ => cases hq

/-- Nobody gets to work in a failing trial. -/
theorem Pass.Step.isAtWork {k : Hook} {a : Pass} {m m' : Memory} {p : Pass.Point}
    {t : Stand Pass.Point Report} (h : a.Step m p m' t) (ht : t.isAt k.isAtWork = true) :
    k.isAtWork p = true ∨ m.hasFailed a.iteration = false := by
  have out {α : Type} {phase : Phase} {next : α → Point} {o : Outcome α}
      (hn : ∀ v, k.isAtWork (next v) = false)
      (ht : (onward phase next o).isAt k.isAtWork = true) : False :=
    Bool.noConfusion (ht.symm.trans (isAt_onward hn (fun _ => rfl) fun _ => rfl))
  cases h with
  | acquire h =>
    obtain ⟨hk, hq⟩ := Bool.and_eq_true_iff.mp ht
    exact (h.isAtWork hq).imp_left fun hp => Bool.and_eq_true_iff.mpr ⟨hk, hp⟩
  | setUp h | tearDown h =>
    obtain ⟨hk, hq⟩ := Bool.and_eq_true_iff.mp ht
    exact (h.isAtWork hq).imp_left fun hp => Bool.and_eq_true_iff.mpr ⟨hk, hp⟩
  | release h =>
    cases h with
    | cleaning h =>
      obtain ⟨hk, hq⟩ := Bool.and_eq_true_iff.mp ht
      exact (h.isAtWork hq).imp_left fun hp => Bool.and_eq_true_iff.mpr ⟨hk, hp⟩
    | found =>
      obtain ⟨_, hq⟩ := Bool.and_eq_true_iff.mp ht
      cases hq
    | _ => cases ht
  | acquired | measured | released => exact (out (fun _ => rfl) ht).elim
  | arrived =>
    refine (out ?_ ht).elim
    intro _
    simp [Hook.isAtWork, Turn.Point.isAtWork]
  | setUpDone =>
    refine (out ?_ ht).elim
    intro _
    unfold afterSetUp
    split <;> rfl
  | @noteStop f ops r =>
    apply absurd ht
    rw [Stand.isAt_point]
    unfold afterMeasured
    split <;> exact Bool.false_ne_true
  | tearDownDone =>
    refine (out ?_ ht).elim
    intro _
    unfold afterTearDown
    split <;> rfl
  | met | force =>
    obtain ⟨_, hq⟩ := Bool.and_eq_true_iff.mp ht
    cases hq
  | enrol =>
    obtain ⟨_, hq⟩ := Bool.and_eq_true_iff.mp ht
    cases hq
  | _ => cases ht

/-- Who has begun goes on with it until it is done or the trial is failing. -/
theorem Turn.Step.hasBegun {a : Pass} {f : Nat} {s : Stage} {c : Bool} {m m' : Memory}
    {p : Turn.Point} {u : Stand Turn.Point Unit} (h : (a.turn f s).Step m p m' u)
    (hp : p.hasBegun c = true) :
    ∃ q, u = .point q ∧ (q.hasBegun false = true ∨ (m'.view a.iteration a.site f).Settled s ∨
      m'.hasFailed a.iteration = true ∧ q.isAtWork = false) := by
  cases h with
  | returned | mishap => exact ⟨_, rfl, .inl rfl⟩
  | condemn => exact ⟨_, rfl, .inr (.inr ⟨Memory.hasFailed_setFailed_self _ _, rfl⟩)⟩
  | commit =>
    refine ⟨_, rfl, .inr (.inl ?_)⟩
    rw [Pass.turn_fixture, Pass.turn_stage, Memory.view_setReady]
    exact View.settled_setReady _ _
  | _ => cases hp

theorem Acquire.Step.hasBegun {a : Acquire} {k : Hook} {c : Bool} {m m' : Memory}
    {p : Acquire.Point} {u : Stand Acquire.Point Nat} (h : a.Step m p m' u)
    (hp : p.hasBegun k c = true) :
    ∃ q, u = .point q ∧ (q.hasBegun k false = true ∨ m'.live? a.site ≠ none ∨
      m'.hasFailed a.iteration = true ∧ q.isAtWork = false) := by
  cases h with
  | constructed =>
    refine ⟨_, rfl, .inl ?_⟩
    rw [Acquire.Point.hasBegun, (Bool.and_eq_true_iff.mp hp).1]
    rfl
  | mishap | setUp | setUpMishap => exact ⟨_, rfl, .inl rfl⟩
  | publish =>
    refine ⟨_, rfl, .inr (.inl ?_)⟩
    simp [Memory.live?, Memory.publish]
  | condemn => exact ⟨_, rfl, .inr (.inr ⟨Memory.hasFailed_setFailed_self _ _, rfl⟩)⟩
  | _ => cases hp

theorem Pass.Step.hasBegun {k : Hook} {c : Bool} {a : Pass} {f : Nat} {m m' : Memory}
    {p : Pass.Point} {t : Stand Pass.Point Report} (h : a.Step m p m' t)
    (hf : ∀ g, p.fixture? = some g → g = f) (hp : k.hasBegun c p = true) :
    t.isAt (k.hasBegun false) = true ∨ k.IsDone (m'.view a.iteration a.site f) ∨
      m'.hasFailed a.iteration = true ∧ t.isAt k.isAtWork = false := by
  cases h with
  | acquire h =>
    obtain ⟨hk, hp⟩ := Bool.and_eq_true_iff.mp hp
    obtain ⟨q, hq, hb⟩ := h.hasBegun hp
    cases hq
    rcases hb with hb | hl | ⟨hF, hw⟩
    · exact .inl (Bool.and_eq_true_iff.mpr ⟨hk, hb⟩)
    · exact .inr (.inl ((Hook.isDone_of_isMaking hk).mpr hl))
    · exact .inr (.inr ⟨hF, Bool.and_eq_false_iff.mpr (.inr hw)⟩)
  | acquired h =>
    obtain ⟨q, hq, _⟩ := h.hasBegun (Bool.and_eq_true_iff.mp hp).2
    cases hq
  | setUp h | tearDown h =>
    cases hf _ rfl
    obtain ⟨hk, hp⟩ := Bool.and_eq_true_iff.mp hp
    obtain ⟨q, hq, hb⟩ := h.hasBegun hp
    cases hq
    cases of_decide_eq_true hk
    exact hb
  | release h =>
    cases h with
    | cleaning h =>
      cases hf _ rfl
      obtain ⟨hk, hp⟩ := Bool.and_eq_true_iff.mp hp
      obtain ⟨q, hq, hb⟩ := Turn.Step.hasBegun (a := a) h hp
      cases hq
      cases of_decide_eq_true hk
      exact hb
    | cleaned h =>
      cases hf _ rfl
      obtain ⟨q, hq, _⟩ := Turn.Step.hasBegun (a := a) h (Bool.and_eq_true_iff.mp hp).2
      cases hq
    | _ => cases hp
  | setUpDone h | tearDownDone h =>
    obtain ⟨q, hq, _⟩ := h.hasBegun (Bool.and_eq_true_iff.mp hp).2
    cases hq
  | released h =>
    cases h with
    | crashed h =>
      obtain ⟨q, hq, _⟩ := Turn.Step.hasBegun (a := a) h (Bool.and_eq_true_iff.mp hp).2
      cases hq
    | cleared => cases hp
  | _ => cases hp

/-! ### Accounts -/

namespace Hook
variable {k : Hook} {isLast : Bool} {v v' : View} {f i r : Nat} {marks marks' : List Nat}
  {p : Pass.Point} {t : Stand Pass.Point Report}

theorem Closed.deed (h : k.Closed v marks) (hd : Pass.Deed f p t v v')
    (hv : p.Vouched isLast v f marks) (hw : v.interrupted = true → ∀ n ∈ marks, 2 ≤ n)
    (hset : k = .stage ⟨.iteration, .tearDown⟩ → p.turn? ≠ some (⟨.iteration, .setUp⟩, .commit))
    (hpub : k.isMaking = false → ∀ value, p ≠ .acquire (.publish value)) : k.Closed v' marks := by
  have departed (hd : v.Departed marks) (n : Nat) (hn : n ∈ marks) : 2 ≤ n :=
    Accord.two_le_of_departed hw hd hn
  rcases h with h | h
  · by_cases hm : k.isMaking = true
    · have hl := (isDone_of_isMaking hm).mp h
      cases hd with
      | publish => exact .inl ((isDone_of_isMaking hm).mpr nofun)
      | clear hp =>
        subst hp
        exact .inr ⟨isSetUp_of_isMaking hm, departed hv.1⟩
      | _ => exact .inl ((isDone_of_isMaking hm).mpr hl)
    · cases k with
      | construct => exact absurd rfl hm
      | stage s =>
        have hs : s ≠ ⟨.trial, .setUp⟩ := fun hs => hm (decide_eq_true hs)
        have h := (isDone_stage hs).mp h
        cases hd with
        | publish hp => exact absurd hp (hpub (Bool.eq_false_iff.mpr hm) _)
        | @commit s' hc =>
          by_cases hl : s.level = s'.level
          · by_cases hss : s = s'
            · subst hss
              exact .inl ((isDone_stage hs).mpr (View.settled_setReady _ _))
            · -- the other stage of the level was committed
              obtain ⟨l, d⟩ := s
              cases hl
              rcases Pass.Point.turn?_stage hc with rfl | rfl | rfl
              · cases d with
                | setUp => exact absurd rfl hss
                | tearDown => exact absurd hc (hset rfl)
              · cases d with
                | setUp => exact .inr ⟨rfl, departed ((hv.turn hc).2.1 rfl)⟩
                | tearDown => exact absurd rfl hss
              · cases d with
                | setUp => exact absurd rfl hs
                | tearDown => exact absurd rfl hss
          · exact .inl ((isDone_stage hs).mpr ((View.settled_setReady_ne _ _ hl).mpr h))
        | _ => exact .inl ((isDone_stage hs).mpr h)
  · exact .inr h

theorem not_closed_of_call {a : Pass} {m : Memory} {q : Request} (hc : a.call? m p = some q)
    (hk : q.hook? = some k) (hv : p.Vouched isLast v f marks) (hp : p.Passed r) (hr : r ∈ marks) :
    ¬ k.Closed v marks := by
  have early (h : r < 2) (h2 : ∀ n ∈ marks, 2 ≤ n) : False := Nat.not_le_of_lt h (h2 r hr)
  cases p with
  | acquire p =>
    have h0 : r = 0 := hp
    cases p <;> cases hc <;> cases hk <;>
      exact fun h => h.elim (fun hl => hl hv) fun h2 => early (by omega) h2.2
  | setUp g p =>
    have h1 : r = 1 := hp
    cases p <;> cases hc
    cases hk
    exact fun h => h.elim (fun hs => hv.2.1 hs) fun h2 => early (by omega) h2.2
  | tearDown g r p =>
    cases p <;> cases hc
    cases hk
    exact fun h => h.elim (fun hs => hv.2.2.1 hs) fun h2 => Bool.noConfusion h2.1
  | release r p =>
    cases p with
    | cleaning g p =>
      cases p <;> cases hc
      cases hk
      exact fun h => h.elim (fun hs => hv.2.2.2.2.1 hs) fun h2 => Bool.noConfusion h2.1
    | _ => cases hc
  | measure f ops p =>
    cases p <;> cases hc
    cases hk
  | warmupWork | warmdownWork => cases hc; cases hk
  | _ => cases hc

/-- Where a hook stands that has begun: it is closed, or the trial is failing and nobody is at work
at it, or somebody has begun with it. -/
def Accounted (k : Hook) (began : Prop) (v : View) (marks : List Nat)
    (l : List (Strand Pass.Point Report)) : Prop :=
  began → k.Closed v marks ∨ (v.failed = true ∧ ∀ s ∈ l, s.stand.isAt k.isAtWork = false) ∨
    ∃ s ∈ l, s.stand.isAt (k.hasBegun s.calling) = true

namespace Accounted
variable {began : Prop} {l : List (Strand Pass.Point Report)} {s s' : Strand Pass.Point Report}

/-- Where two members are at work at a hook, they are the same. -/
theorem alone (hex : Exclusive k.lock v (l.map Strand.stand)) {j : Nat}
    {u : Strand Pass.Point Report} (hi : l[i]? = some s) (hj : l[j]? = some u)
    (hs : s.stand.isAt k.isAtWork = true) (hu : u.stand.isAt k.isAtWork = true) : i = j := by
  have holds {u : Strand Pass.Point Report} (hu : u.stand.isAt k.isAtWork = true) :
      Pass.holds u.stand k.lock = true := Stand.isAt_mono (fun _ => holds_of_isAtWork) hu
  apply hex.unique _ _ (holds hs) (holds hu)
  · rw [List.getElem?_map, hi]
    rfl
  · rw [List.getElem?_map, hj]
    rfl

/-- A member that stays where it is, and forgets no call that it has begun. -/
theorem rest (h : k.Accounted began v marks l) (hi : l[i]? = some s) (hs : s'.stand = s.stand)
    (hb : s.stand.isAt (k.hasBegun s.calling) = true →
      s'.stand.isAt (k.hasBegun s'.calling) = true) :
    k.Accounted began v marks (l.set i s') := by
  intro hbegan
  rcases h hbegan with hc | ⟨hF, hno⟩ | ⟨u, hu, hbu⟩
  · exact .inl hc
  · refine .inr (.inl ⟨hF, ?_⟩)
    intro u hu
    rcases List.mem_or_eq_of_mem_set hu with hu | rfl
    · exact hno u hu
    · rw [hs]
      exact hno s (List.mem_of_getElem? hi)
  · obtain ⟨j, hj⟩ := List.mem_iff_getElem?.mp hu
    refine .inr (.inr ?_)
    by_cases hij : i = j
    · subst hij
      cases hi.symm.trans hj
      obtain ⟨hlt, _⟩ := List.getElem?_eq_some_iff.mp hi
      exact ⟨s', List.mem_set hlt _, hb hbu⟩
    · exact ⟨u, List.mem_of_getElem? ((List.getElem?_set_ne hij).trans hj), hbu⟩

theorem step (h : k.Accounted began v marks l) (hi : l[i]? = some s) (hp : s.stand = .point p)
    (hex : Exclusive k.lock v (l.map Strand.stand)) (hfail : v.failed = true → v'.failed = true)
    (hwork : t.isAt k.isAtWork = true → k.isAtWork p = true ∨ v.failed = false)
    (hbegun : k.hasBegun s.calling p = true → t.isAt (k.hasBegun false) = true ∨ k.IsDone v' ∨
      v'.failed = true ∧ t.isAt k.isAtWork = false)
    (hclosed : began → k.Closed v marks → k.Closed v' marks') :
    k.Accounted began v' marks' (l.set i ⟨t, false⟩) := by
  intro hbegan
  have hs {b : Pass.Point → Bool} (hb : b p = true) : s.stand.isAt b = true := by rw [hp]; exact hb
  obtain ⟨hlt, _⟩ := List.getElem?_eq_some_iff.mp hi
  rcases h hbegan with hc | ⟨hF, hno⟩ | ⟨u, hu, hbu⟩
  · exact .inl (hclosed hbegan hc)
  · refine .inr (.inl ⟨hfail hF, ?_⟩)
    intro u hu
    rcases List.mem_or_eq_of_mem_set hu with hu | rfl
    · exact hno u hu
    · apply Bool.eq_false_iff.mpr
      intro ht
      rcases hwork ht with hw | hF'
      · exact Bool.noConfusion ((hs hw).symm.trans (hno s (List.mem_of_getElem? hi)))
      · exact Bool.noConfusion (hF.symm.trans hF')
  · obtain ⟨j, hj⟩ := List.mem_iff_getElem?.mp hu
    by_cases hij : i = j
    · subst hij
      cases hi.symm.trans hj
      rw [hp] at hbu
      rcases hbegun hbu with hb | hd | ⟨hF, ht⟩
      · exact .inr (.inr ⟨_, List.mem_set hlt _, hb⟩)
      · exact .inl (.inl hd)
      · refine .inr (.inl ⟨hF, fun u hu => Bool.eq_false_iff.mpr ?_⟩)
        intro hw
        obtain ⟨j, hj⟩ := List.mem_iff_getElem?.mp hu
        rcases getElem?_set_eq_some hj with ⟨_, rfl⟩ | ⟨hij, hj⟩
        · exact Bool.noConfusion (hw.symm.trans ht)
        · exact hij (alone hex hi hj (hs (isAtWork_of_hasBegun hbu)) hw)
    · exact .inr (.inr ⟨u, List.mem_of_getElem? ((List.getElem?_set_ne hij).trans hj), hbu⟩)

/-- Who is at work at a hook, and has not begun with it, is the first. -/
theorem not_began (h : k.Accounted began v marks l) (hi : l[i]? = some s) (hp : s.stand = .point p)
    (hex : Exclusive k.lock v (l.map Strand.stand)) (hw : k.isAtWork p = true)
    (hn : k.hasBegun s.calling p = false) (hc : ¬ k.Closed v marks) : ¬ began := by
  intro hbegan
  have hs : s.stand.isAt k.isAtWork = true := by rw [hp]; exact hw
  rcases h hbegan with hc' | ⟨_, hno⟩ | ⟨u, hu, hbu⟩
  · exact hc hc'
  · exact Bool.noConfusion (hs.symm.trans (hno s (List.mem_of_getElem? hi)))
  · obtain ⟨j, hj⟩ := List.mem_iff_getElem?.mp hu
    have hu' : u.stand.isAt k.isAtWork = true := Stand.isAt_mono (fun _ => isAtWork_of_hasBegun) hbu
    obtain rfl := alone hex hi hj hs hu'
    cases hi.symm.trans hj
    rw [hp] at hbu
    exact Bool.noConfusion (hbu.symm.trans hn)

end Accounted
end Hook
end LoadBench
