import LoadBench.Proofs.LifecycleOrder

/-!
# Healthy runs

A run is healthy if every hook and every call of the workload returns. Then nobody crashes, and
whoever fails was told to stop or has no role in its group (`Pass.Unharmed`); a lock that is taken
is held by somebody (`Owned`); and a fixture stands as it was published until the last iteration
gives it back. When all members of an iteration have ended, the site is at rest again
(`Memory.Rested`).
-/

namespace LoadBench

def Event.isMishap : Event → Bool
  | .answered _ (.refused _) | .answered _ (.crashed _) => true
  | _ => false

/-- A step that is offered the return of a call tells of no mishap. -/
theorem Strand.harmless_of_advance {σ α : Type} {s s' : Strand σ α} {move : σ → Move Memory σ α}
    {m m' : Memory} {v : Nat} {es : List Event}
    (h : s.advance move m (.returned v) = some (m', es, s')) :
    ∀ e ∈ es, e.isMishap = false := by
  unfold advance at h
  split at h
  · cases h
  · split at h
    · cases h
      intro e he
      obtain ⟨n, _, rfl⟩ := List.mem_map.mp he
      rfl
    · split at h
      · split at h <;> cases h
        simp [Event.isMishap]
      · cases h
        simp [Event.isMishap]
    · cases h

/-! ### Ends without a mishap -/

/-- An operation has ended well, or because it was told to stop. -/
def Outcome.Unharmed {α : Type} : Outcome α → Prop
  | ok _ => True
  | failed e => e.isSecondary = true
  | crashed _ => False

def Turn.Unharmed : Stand Turn.Point Unit → Prop
  | .point (.condemn _) => False
  | .point (.leave r) | .ended r => r.Unharmed
  | .point _ => True

def Acquire.Unharmed : Stand Acquire.Point Nat → Prop
  | .point (.condemn _) => False
  | .point (.leave r) | .ended r => r.Unharmed
  | .point _ => True

def Release.Unharmed : Stand Release.Point Unit → Prop
  | .point (.cleaning _ p) => Turn.Unharmed (.point p)
  | .point (.clearing r _) | .ended r => r.Unharmed
  | .point _ => True

section
variable {m m' : Memory}

theorem Turn.Step.unharmed {t : Turn} {p : Turn.Point} {s : Stand Turn.Point Unit}
    (h : t.Step m p m' s) (hp : p ≠ .hook) (hu : Turn.Unharmed (.point p)) : Turn.Unharmed s := by
  cases h with
  | returned | mishap => exact absurd rfl hp
  | giveUp | foundFailed | abort => exact rfl
  | condemn => exact hu.elim
  | leave => exact hu
  | _ => trivial

theorem Acquire.Step.unharmed {a : Acquire} {p : Acquire.Point} {s : Stand Acquire.Point Nat}
    (h : a.Step m p m' s) (h₁ : p ≠ .construct) (h₂ : ∀ value, p ≠ .setUp value)
    (hu : Acquire.Unharmed (.point p)) : Acquire.Unharmed s := by
  cases h with
  | constructed | mishap => exact absurd rfl h₁
  | setUp | setUpMishap => exact absurd rfl (h₂ _)
  | abort => exact rfl
  | condemn => exact hu.elim
  | leave => exact hu
  | _ => trivial

theorem Release.Step.unharmed {a : Release} {p : Release.Point} {s : Stand Release.Point Unit}
    (h : a.Step m p m' s) (hp : ∀ f, p ≠ .cleaning f .hook) (hu : Release.Unharmed (.point p)) :
    Release.Unharmed s := by
  have still {f : Nat} {q : Turn.Point} (hq : Release.Point.cleaning f q ≠ .cleaning f .hook) :
      q ≠ .hook :=
    fun hc => hq (congrArg _ hc)
  cases h with
  | cleaning ht | cleaned ht | crashed ht => exact ht.unharmed (still (hp _)) hu
  | abort => exact rfl
  | clearing | cleared => exact hu
  | _ => trivial

end

namespace Pass
variable {a : Pass} {m m' : Memory} {p : Point} {t : Stand Point Report} {r r' : Nat}

/-- A pass whose calls have all returned: it does not crash, and fails only if it was told to stop,
or before the first checkpoint for want of a role. -/
def Unharmed (r : Nat) : Stand Point Report → Prop
  | .point (.acquire p) => Acquire.Unharmed (.point p)
  | .point (.setUp _ p) | .point (.tearDown _ _ p) => Turn.Unharmed (.point p)
  | .point (.release _ p) => Release.Unharmed (.point p)
  | .point (.fail _ e) | .ended (.failed e) => e.isSecondary = true ∨ r = 0
  | .point (.condemn ..) | .ended (.crashed _) => False
  | _ => True

theorem Unharmed.of_mark (hu : Unharmed r t) (hr : Doomed t → r' = r) : Unharmed r' t := by
  cases t with
  | ended o =>
    cases o with
    | failed e => exact hr trivial ▸ hu
    | ok v | crashed text => exact hu
  | point p =>
    cases p with
    | fail phase e => exact hr trivial ▸ hu
    | _ => exact hu

theorem unharmed_onward {α : Type} {phase : Phase} {next : α → Point} {o : Outcome α}
    (ho : o.Unharmed) (hn : ∀ v, Unharmed r (.point (next v))) :
    Unharmed r (onward phase next o) := by
  cases o with
  | ok v => exact hn v
  | failed e => exact .inl ho
  | crashed text => exact ho.elim

theorem Step.unharmed (h : a.Step m p m' t) (hc : a.call? m p = none) (hp : p.Passed r)
    (hu : Unharmed r (.point p)) : Unharmed r t := by
  cases h with
  | reject => exact .inr hp
  | @acquire p q _ h =>
    exact h.unharmed (by rintro rfl; cases hc) (by rintro value rfl; cases hc) hu
  | @acquired p _ o h =>
    have ho := h.unharmed (by rintro rfl; cases hc) (by rintro value rfl; cases hc) hu
    exact unharmed_onward ho fun _ => trivial
  | arrived h =>
    cases h with
    | met => trivial
    | abort => exact .inl rfl
  | setUp h | tearDown h => exact h.unharmed (by rintro rfl; cases hc) hu
  | @setUpDone f _ _ o h =>
    have ho := h.unharmed (by rintro rfl; cases hc) hu
    refine unharmed_onward ho ?_
    intro _
    unfold afterSetUp
    split <;> trivial
  | @measured f ops p _ o h =>
    cases h with
    | crash => cases hc
    | stop | widenMask => trivial
  | @noteStop f ops o =>
    unfold afterMeasured
    split <;> trivial
  | @tearDownDone f r _ _ o h =>
    have ho := h.unharmed (by rintro rfl; cases hc) hu
    refine unharmed_onward ho ?_
    intro _
    unfold afterTearDown
    split <;> trivial
  | release h => exact h.unharmed (by rintro f rfl; cases hc) hu
  | released h =>
    exact unharmed_onward (h.unharmed (by rintro f rfl; cases hc) hu) fun _ => trivial
  | notInterrupted | abort | void => exact .inl rfl
  | warmupCrashed | warmdownCrashed => cases hc
  | fail => exact hu
  | condemn => exact hu.elim
  | _ => trivial

/-- A call that returns does no harm. -/
theorem unharmed_of_returned {now v : Nat} {q : Request} {k : Reply → Stand Point Report}
    (hk : a.step now m p = .ask q k) (hc : a.call? m p = some q) :
    Unharmed r (k (.returned v)) := by
  cases p with
  | acquire p | setUp f p | tearDown f o p =>
    cases p <;> cases hc <;> cases hk <;> trivial
  | release o p =>
    cases p with
    | cleaning f p => cases p <;> cases hc; cases hk; trivial
    | _ => cases hc
  | measure f ops p => cases p <;> cases hc; cases hk; trivial
  | warmupWork | warmdownWork => cases hk; trivial
  | _ => cases hc

/-- Where no call goes wrong, only a pass without a role marks the trial failing. -/
theorem Unharmed.condemns (hu : Unharmed r (.point p)) (hc : p.Condemns) : p = .reject := by
  rcases hc with rfl | ⟨phase, text, rfl⟩ | ⟨y, rfl⟩ | ⟨s, y, hs⟩
  · rfl
  · exact hu.elim
  · exact hu.elim
  · cases p with
    | setUp | tearDown => cases hs; exact hu.elim
    | release o p => cases p <;> cases hs; exact hu.elim
    | _ => cases hs

end Pass

/-! ### Locks that somebody holds -/

/-- A lock that is taken is held by somebody. -/
def Owned (k : Lock) (v : View) (l : List (Stand Pass.Point Report)) : Prop :=
  v.isTaken k = true → ∃ t ∈ l, Pass.holds t k = true

namespace Owned
variable {k : Lock} {v v' : View} {l : List (Stand Pass.Point Report)} {f i : Nat} {p : Pass.Point}
  {t : Stand Pass.Point Report}

theorem of_free (h : v.isTaken k = false) : Owned k v l :=
  fun ht => Bool.noConfusion (h.symm.trans ht)

theorem deed (h : Owned k v l) (hi : l[i]? = some (.point p)) (hd : Pass.Deed f p t v v')
    (hk : k = .site ∨ ∀ value, p ≠ .acquire (.publish value)) : Owned k v' (l.set i t) := by
  obtain ⟨hlt, _⟩ := List.getElem?_eq_some_iff.mp hi
  intro ht
  rcases hd.handles hk with ⟨hs, hv⟩ | ⟨_, _, hs⟩ | ⟨_, hv, _⟩
  · -- whoever holds it still does, the member itself included
    obtain ⟨u, hu, hh⟩ := h (hv ▸ ht)
    obtain ⟨j, hj⟩ := List.mem_iff_getElem?.mp hu
    by_cases hij : i = j
    · subst hij
      cases hi.symm.trans hj
      exact ⟨t, List.mem_set hlt _, hs.trans hh⟩
    · exact ⟨u, List.mem_of_getElem? ((List.getElem?_set_ne hij).trans hj), hh⟩
  · exact ⟨t, List.mem_set hlt _, hs⟩
  · exact Bool.noConfusion (hv.symm.trans ht)

theorem free_of_none (h : Owned k v l) (hn : ∀ t ∈ l, Pass.holds t k = false) :
    v.isTaken k = false := by
  cases hv : v.isTaken k with
  | false => rfl
  | true =>
    obtain ⟨t, ht, hk⟩ := h hv
    exact Bool.noConfusion ((hn t ht).symm.trans hk)

end Owned

/-- Nobody is in the section of a site, nor in a gate of the fixture that is live there, if any. -/
structure Memory.Quiet (m : Memory) (site : Site) : Prop where
  left : m.isEntered site = false
  idle : ∀ f, m.live? site = some f → ∀ s, m.gate f s = .idle

theorem Memory.Quiet.of_vacant {m : Memory} {site : Site} (he : m.isEntered site = false)
    (hl : m.live? site = none) : m.Quiet site :=
  ⟨he, fun _ hf => absurd (hl.symm.trans hf) nofun⟩

/-- Nobody is in the section of a site, and the fixture that is live there, if any, waits for its
next iteration: it is set up for the trial but not for an iteration, and nobody is in its gates. -/
structure Memory.Rested (m : Memory) (site : Site) : Prop where
  left : m.isEntered site = false
  idle : ∀ f, m.live? site = some f → ∀ s, m.gate f s = .idle
  trialUp : ∀ f, m.live? site = some f → m.isReady f ⟨.trial, .setUp⟩ = true
  iterationDown : ∀ f, m.live? site = some f → m.isReady f ⟨.iteration, .setUp⟩ = false

theorem Memory.Rested.quiet {m : Memory} {site : Site} (h : m.Rested site) : m.Quiet site :=
  ⟨h.left, h.idle⟩

theorem Memory.Rested.of_vacant {m : Memory} {site : Site} (he : m.isEntered site = false)
    (hl : m.live? site = none) : m.Rested site := by
  have none_live {f : Nat} (hf : m.live? site = some f) : False := by cases hl.symm.trans hf
  exact ⟨he, fun _ hf => (none_live hf).elim, fun _ hf => (none_live hf).elim,
    fun _ hf => (none_live hf).elim⟩

/-- A site becomes vacant when it is cleared. -/
theorem Pass.Deed.vacates {f : Nat} {p : Pass.Point} {t : Stand Pass.Point Report} {v v' : View}
    (h : Pass.Deed f p t v v') (hl : v'.live = none) :
    v.live = none ∨ ∃ r o, p = .release r (.clearing o .store) := by
  cases h with
  | publish => cases hl
  | clear hp => exact .inr ⟨_, _, hp⟩
  | _ => exact .inl hl

theorem Pass.Step.view_publish {a : Pass} {m m' : Memory} {value f : Nat}
    {t : Stand Pass.Point Report} (h : a.Step m (.acquire (.publish value)) m' t)
    (hf : m.published = f) :
    m'.view a.iteration a.site f =
      { m.view a.iteration a.site f with
        live := some f, published := f + 1, fixture := .fresh value } := by
  cases h with
  | acquire h =>
    cases h with
    | publish => exact Memory.view_publish m value hf
  | acquired h => cases h

/-- At a vacant site nobody of a group gets a fixture but by publishing one. -/
theorem Pass.Step.unequipped_set {a : Pass} {m m' : Memory} {p : Pass.Point}
    {t : Stand Pass.Point Report} {l : List (Stand Pass.Point Report)} {i : Nat}
    (h : a.Step m p m' t) (hi : l[i]? = some (.point p)) (hl : m.live? a.site = none)
    (hn : ∀ u ∈ l, Pass.isEquipped u = false) (hpub : ∀ value, p ≠ .acquire (.publish value)) :
    ∀ u ∈ l.set i t, Pass.isEquipped u = false := by
  intro u hu
  rcases List.mem_or_eq_of_mem_set hu with hu | rfl
  · exact hn u hu
  · exact h.unequipped (hn _ (List.mem_of_getElem? hi)) hl hpub

/-! ### Groups -/

namespace Group

/-- The locks of a running group are held by its members: the section of the site, and the gates of
the fixture once somebody has one. -/
structure Kept (x : Execution) (m : Memory) (g : Group) (f : Nat) : Prop where
  entered : Owned .site (m.view g.iteration x.site f) g.stands
  gates : (m.live? x.site = none ∧ ∀ t ∈ g.stands, Pass.isEquipped t = false) ∨
    ∀ s, Owned (.gate s) (m.view g.iteration x.site f) g.stands

namespace Kept
variable {x : Execution} {m m' : Memory} {g g' : Group} {marks : List Nat} {f i index : Nat}
  {p : Pass.Point} {t : Stand Pass.Point Report} {r : Nat}

theorem rest (hK : g.Kept x m f) (hc : g'.iteration = g.iteration) (hs : g'.stands = g.stands) :
    g'.Kept x m f := by
  obtain ⟨entered, gates⟩ := hK
  constructor <;> simp only [hc, hs] <;> assumption

theorem member (hK : g.Kept x m f) (ha : g.Agreed x index m marks f)
    (hi : g.stands[i]? = some (.point p)) (ht : (x.pass g.iteration i).Step m p m' t)
    (hr : marks[i]? = some r) (hp : p.Passed r) (hc : g'.iteration = g.iteration)
    (hs : g'.stands = g.stands.set i t) : g'.Kept x m' f := by
  have hd := ha.2.deed hi ht hr hp
  constructor <;> rw [hc, hs]
  · exact hK.entered.deed hi hd (.inl rfl)
  · rcases p.publishes_or with ⟨value, rfl⟩ | hpub
    · -- the gates of a published fixture are idle
      refine .inr fun s => .of_free ?_
      have hnew := ht.view_publish (ha.2.vacant_of_publish hi hr hp).1
      have hidle : (Fixture.fresh value).gates.get s = .idle := Stages.get_replicate _ _
      exact (congrArg (fun v => v.isTaken (.gate s)) hnew).trans (congrArg Gate.isActive hidle)
    · refine hK.gates.imp (fun ⟨hl, hn⟩ => ⟨hd.live hpub hl, ht.unequipped_set hi hl hn hpub⟩) ?_
      exact fun ho s => (ho s).deed hi hd (.inr hpub)

theorem conductor (hK : g.Kept x m f) {p : Conductor.Point} {s : Stand Conductor.Point Unit}
    (ht : (x.conductor g.iteration).Step m p m' s) (hc : g'.iteration = g.iteration)
    (hs : g'.stands = g.stands) : g'.Kept x m' f := by
  have owned (k : Lock) (ho : Owned k (m.view g.iteration x.site f) g.stands) :
      Owned k (m'.view g.iteration x.site f) g.stands := by
    rcases ht.view x.site f with hv | ⟨_, hv⟩
    · exact hv.symm ▸ ho
    · have hv : m'.view g.iteration x.site f =
          { m.view g.iteration x.site f with interrupted := true } := hv
      rw [hv]
      cases k <;> exact ho
  constructor <;> rw [hc, hs]
  · exact owned _ hK.entered
  · exact hK.gates.imp (fun hn => ⟨(ht.live? x.site).trans hn.1, hn.2⟩) fun ho s => owned _ (ho s)

theorem opening (hm : m.Quiet x.site) (index created : Nat) (mask : UInt32) :
    (x.group (x.iteration index created)).Kept x
      { m with signals := m.signals.put (x.iteration index created).number { mask } }
      ((m.live? x.site).getD m.published) := by
  constructor
  · exact .of_free hm.left
  · cases hl : m.live? x.site with
    | none =>
      refine .inl ⟨hl, fun t ht => ?_⟩
      rw [Group.eq_start_of_mem ht]
      rfl
    | some f => exact .inr fun s => .of_free (congrArg Gate.isActive (hm.idle f hl s))

/-- When everybody has ended, nobody is in the section of the site, nor in a
gate of the live fixture. -/
theorem free (hK : g.Kept x m f) (he : g.hasEnded = true) :
    m.isEntered x.site = false ∧ (m.live? x.site = some f → ∀ s, m.gate f s = .idle) := by
  have none_holds (k : Lock) (t : Stand Pass.Point Report) (ht : t ∈ g.stands) :
      Pass.holds t k = false := by
    obtain ⟨o, rfl⟩ := Group.exists_outcome he ht
    rfl
  refine ⟨hK.entered.free_of_none (none_holds _), fun hl s => ?_⟩
  rcases hK.gates with ⟨hn, _⟩ | ho
  · cases hl.symm.trans hn
  · have hfree : (m.gate f s).isActive = false := (ho s).free_of_none (none_holds _)
    cases hg : m.gate f s with
    | idle => rfl
    | active => rw [hg] at hfree; cases hfree

theorem quiet (hK : g.Kept x m f) (ha : g.Agreed x index m marks f) (he : g.hasEnded = true) :
    m.Quiet x.site := by
  obtain ⟨left, idle⟩ := hK.free he
  refine ⟨left, fun f' hl => ?_⟩
  cases ha.2.live hl
  exact idle hl

end Kept

/-- What is certain of a running group as long as every call returns. -/
structure Hale (x : Execution) (m : Memory) (g : Group) (marks : List Nat) (f : Nat) : Prop where
  unharmed : ∀ {i : Nat} {t : Stand Pass.Point Report} {r : Nat}, g.stands[i]? = some t →
    marks[i]? = some r → Pass.Unharmed r t
  /-- Only members without a role make the trial fail. -/
  blameless : m.hasFailed g.iteration = true → ∃ (i : Nat) (t : Stand Pass.Point Report),
    g.stands[i]? = some t ∧ marks[i]? = some 0 ∧ Pass.Doomed t
  entered : Owned .site (m.view g.iteration x.site f) g.stands
  gates : (m.live? x.site = none ∧ ∀ t ∈ g.stands, Pass.isEquipped t = false) ∨
    ∀ s, Owned (.gate s) (m.view g.iteration x.site f) g.stands
  vacant : m.live? x.site = none →
    (∀ t ∈ g.stands, Pass.isEquipped t = false) ∨ (m.view g.iteration x.site f).Departed marks
  trialUp : m.live? x.site ≠ none → (m.view g.iteration x.site f).Settled ⟨.trial, .setUp⟩ ∨
    g.iteration.isLast = true ∧ (m.view g.iteration x.site f).Departed marks

namespace Hale
variable {x : Execution} {m m' : Memory} {g g' : Group} {marks : List Nat} {f i index : Nat}
  {p : Pass.Point} {t : Stand Pass.Point Report} {r r' : Nat}

theorem kept (hH : g.Hale x m marks f) : g.Kept x m f := ⟨hH.entered, hH.gates⟩

theorem rest (hH : g.Hale x m marks f) (hc : g'.iteration = g.iteration)
    (hs : g'.stands = g.stands) :
    g'.Hale x m marks f := by
  obtain ⟨unharmed, blameless, entered, gates, vacant, trialUp⟩ := hH
  constructor <;> simp only [hc, hs] <;> assumption

theorem member (hH : g.Hale x m marks f) (ha : g.Agreed x index m marks f)
    (hi : g.stands[i]? = some (.point p)) (ht : (x.pass g.iteration i).Step m p m' t)
    (hr : marks[i]? = some r) (hp : p.Passed r) (ht' : Pass.Passed t r') (hle : r ≤ r')
    (hkeep : Pass.Doomed t → r' = r) (hu : Pass.Unharmed r t) (hc : g'.iteration = g.iteration)
    (hs : g'.stands = g.stands.set i t) : g'.Hale x m' (marks.set i r') f := by
  have hK := hH.kept.member ha hi ht hr hp hc hs
  obtain ⟨hP, hA⟩ := ha
  obtain ⟨hilt, _⟩ := List.getElem?_eq_some_iff.mp hi
  obtain ⟨hrlt, _⟩ := List.getElem?_eq_some_iff.mp hr
  have hv : p.Vouched g.iteration.isLast (m.view g.iteration x.site f) f marks := hA.vouched hi
  have hd := hA.deed hi ht hr hp
  have departed (hdep : (m.view g.iteration x.site f).Departed marks) :
      (m'.view g.iteration x.site f).Departed (marks.set i r') :=
    hdep.mono (fun hI => hd.interrupted.trans hI)
      (Accord.all_four_raised hr hle (Pass.passed_le_four ht'))
  constructor
  · intro j u n hj hn
    rw [hs] at hj
    rcases getElem?_set_eq_some hj with ⟨rfl, rfl⟩ | ⟨hij, hj⟩
    · obtain ⟨_, rfl⟩ | ⟨hne, _⟩ := getElem?_set_eq_some hn
      · exact hu.of_mark hkeep
      · exact absurd rfl hne
    · obtain ⟨rfl, _⟩ | ⟨_, hn⟩ := getElem?_set_eq_some hn
      · exact absurd rfl hij
      · exact hH.unharmed hj hn
  · rw [hc, hs]
    intro hf'
    -- a mark of a member that is doomed does not move
    have mine (hdt : Pass.Doomed t) (h0 : r = 0) : ∃ (j : Nat) (u : Stand Pass.Point Report),
        (g.stands.set i t)[j]? = some u ∧ (marks.set i r')[j]? = some 0 ∧ Pass.Doomed u :=
      ⟨i, t, by simp [hilt], by simp [hrlt, hkeep hdt, h0], hdt⟩
    cases hf : m.hasFailed g.iteration with
    | true =>
      obtain ⟨j, u, hj, hn, hdu⟩ := hH.blameless hf
      by_cases hij : i = j
      · subst hij
        cases hi.symm.trans hj
        cases hr.symm.trans hn
        exact mine (ht.doomed hdu) rfl
      · exact ⟨j, u, by simp [hij, hj], by simp [hij, hn], hdu⟩
    | false =>
      have hrej := (hH.unharmed hi hr).condemns (hd.condemns hf hf')
      subst hrej
      exact mine (ht.doomed_of_failed hf hf') hp
  · exact hK.entered
  · exact hK.gates
  · rw [hc, hs]
    intro hl'
    rcases hd.vacates hl' with hl | ⟨y, o, rfl⟩
    · refine (hH.vacant hl).imp (fun hn => ht.unequipped_set hi hl hn ?_) departed
      rintro value rfl
      cases (ht.publishes (hA.vacant_of_publish hi hr hp).1).symm.trans hl'
    · exact .inr (departed hv.1)
  · rw [hc]
    intro hl'
    rcases p.publishes_or with ⟨value, rfl⟩ | hpub
    · left
      have hnew := ht.view_publish (hA.vacant_of_publish hi hr hp).1
      exact congrArg (fun v : View => v.fixture.isReady ⟨.trial, .setUp⟩) hnew
    · rcases hH.trialUp fun hl => hl' (hd.live hpub hl) with hup | ⟨hlast, hdep⟩
      · refine (hd.keeps_setUp hpub hup).imp_right fun hc => ?_
        exact ⟨((hv.turn hc).2.2 rfl).2, departed ((hv.turn hc).2.1 rfl)⟩
      · exact .inr ⟨hlast, departed hdep⟩

theorem conductor (hH : g.Hale x m marks f) {p : Conductor.Point} {s : Stand Conductor.Point Unit}
    (ht : (x.conductor g.iteration).Step m p m' s) (hc : g'.iteration = g.iteration)
    (hs : g'.stands = g.stands) : g'.Hale x m' marks f := by
  have hl : m'.live? x.site = m.live? x.site := ht.live? x.site
  have hv : m'.view g.iteration x.site f = m.view g.iteration x.site f ∨
      m'.view g.iteration x.site f = { m.view g.iteration x.site f with interrupted := true } :=
    (ht.view x.site f).imp_right And.right
  have departed (hdep : (m.view g.iteration x.site f).Departed marks) :
      (m'.view g.iteration x.site f).Departed marks := hdep.imp_left ht.later.interrupted
  have hfix : (m'.view g.iteration x.site f).fixture = (m.view g.iteration x.site f).fixture := by
    rcases hv with hv | hv <;> rw [hv]
  obtain ⟨entered, gates⟩ := hH.kept.conductor ht hc hs
  rw [hc, hs] at entered gates
  constructor <;> simp only [hc, hs]
  · exact hH.unharmed
  · rw [ht.hasFailed]
    exact hH.blameless
  · exact entered
  · exact gates
  · exact fun hn => (hH.vacant (hl.symm.trans hn)).imp_right departed
  · intro hn
    refine (hH.trialUp (hl ▸ hn)).imp ?_ fun hd => ⟨hd.1, departed hd.2⟩
    unfold View.Settled
    rw [hfix]
    exact id

theorem opening (hf : m.failing.get x.flag = false) (hr : m.Rested x.site) (index created : Nat)
    (mask : UInt32) :
    (x.group (x.iteration index created)).Hale x
      { m with signals := m.signals.put (x.iteration index created).number { mask } }
        (List.replicate x.threads 0)
      ((m.live? x.site).getD m.published) := by
  have unequipped (t : Stand Pass.Point Report)
      (ht : t ∈ (x.group (x.iteration index created)).stands) :
      Pass.isEquipped t = false := by
    rw [Group.eq_start_of_mem ht]
    rfl
  have hK := Kept.opening (x := x) hr.quiet index created mask
  constructor
  · intro i t r hi _
    rw [Group.eq_start_of_mem (List.mem_of_getElem? hi)]
    trivial
  · exact fun h => Bool.noConfusion (h.symm.trans hf)
  · exact hK.entered
  · exact hK.gates
  · exact fun _ => .inl unequipped
  · intro hl
    cases hl' : m.live? x.site with
    | none => exact absurd hl' hl
    | some f => exact .inl (hr.trialUp f hl')

theorem rested (hH : g.Hale x m marks f) (ha : g.Agreed x index m marks f) (he : g.hasEnded = true)
    (ho : ∀ o ∈ g.outcomes, o.isOk = true) (hl : index + 1 ≠ x.trial.iterations) :
    m.Rested x.site := by
  obtain ⟨_, _, hset, _, hnext⟩ := ha.of_all_ok he ho
  obtain ⟨hleft, hidle⟩ := hH.kept.free he
  have hlive := hnext hl
  have hf {f' : Nat} (hf' : m.live? x.site = some f') : f' = f := by
    cases hlive.symm.trans hf'
    rfl
  refine ⟨hleft, fun f' hf' => hf hf' ▸ hidle hlive, fun f' hf' => hf hf' ▸ ?_,
    fun f' hf' => hf hf' ▸ hset⟩
  refine (hH.trialUp (by rw [hlive]; exact Option.some_ne_none f)).resolve_right fun hlast => hl ?_
  rw [ha.1.iteration] at hlast
  exact of_decide_eq_true hlast.1

end Hale
end Group

/-! ### Runs -/

theorem Pass.Played.unharmed {a : Pass} {m m' : Memory} {s s' : Strand Pass.Point Report}
    {es : List Event} {r : Nat} (h : a.Played m s m' es s') (hes : ∀ e ∈ es, e.isMishap = false)
    (hp : Pass.Passed s.stand r) (hu : Pass.Unharmed r s.stand) : Pass.Unharmed r s'.stand := by
  cases h with
  | rest hp' hc hs he =>
    rw [hs]
    exact hu
  | act hp' hc ht he =>
    rw [hp'] at hp hu
    exact ht.unharmed hc hp hu
  | call hp' hc hs =>
    rw [hp'] at hu
    exact hu
  | @reply p q r' k now hp' hc hs hk ht hd =>
    have hr := hes _ List.mem_cons_self
    cases r' with
    | returned v => exact Pass.unharmed_of_returned hk hc
    | refused problem | crashed text => cases hr

namespace Group
variable {x : Execution} {index i f : Nat} {m m' : Memory} {g : Group} {marks : List Nat}
  {s s' : Strand Pass.Point Report} {es : List Event}

theorem Hale.played (hH : g.Hale x m marks f) (ha : g.Agreed x index m marks f)
    (hi : g.members[i]? = some s) (hplayed : (x.pass g.iteration i).Played m s m' es s')
    (hes : ∀ e ∈ es, e.isMishap = false) :
    ∃ marks', { g with members := g.members.set i s' }.Agreed x index m' marks' f ∧
      { g with members := g.members.set i s' }.Hale x m' marks' f := by
  have hi' := getElem?_stands hi
  obtain ⟨n, hn, hpn⟩ := ha.1.attendance.mark hi'
  have hu := hplayed.unharmed hes hpn (hH.unharmed hi' hn)
  have step {p : Pass.Point} {t : Stand Pass.Point Report} (hp : s.stand = .point p)
      (hs : s' = ⟨t, false⟩)
      (ht : (x.pass g.iteration i).Step m p m' t) :
      ∃ marks', { g with members := g.members.set i s' }.Agreed x index m' marks' f ∧
        { g with members := g.members.set i s' }.Hale x m' marks' f := by
    subst hs
    rw [hp] at hi'
    have hc : { g with members := g.members.set i ⟨t, false⟩ }.iteration = g.iteration := rfl
    obtain ⟨r, r', hr, hpr, ht', hle, hkeep, ha'⟩ := ha.member hc hi' ht (stands_set ..) rfl
    cases hr.symm.trans hn
    exact ⟨_, ha', hH.member ha hi' ht hr hpr ht' hle hkeep hu rfl (stands_set ..)⟩
  cases hplayed with
  | rest hp hc hs he =>
    exact ⟨marks, ha.rest rfl (stands_set_self hi hs) rfl, hH.rest rfl (stands_set_self hi hs)⟩
  | act hp hc ht he => exact step hp rfl ht
  | call hp hc hs =>
    exact ⟨marks, ha.rest rfl (stands_set_self hi hp.symm) rfl,
      hH.rest rfl (stands_set_self hi hp.symm)⟩
  | reply hp hc hs hk ht hd => exact step hp rfl ht

end Group

namespace Execution
variable {x : Execution} {m : Memory} {h : List Entry} {w w' : World}

def World.Hale (x : Execution) (w : World) : Prop :=
  match w.point with
  | .launch .. => w.memory.failing.get x.flag = false ∧ w.memory.Rested x.site
  | .running index g => ∃ marks f, g.Agreed x index w.memory marks f ∧ g.Hale x w.memory marks f
  | _ => True

theorem World.Hale.step (hw : w.Hale x) {who : Actor} {es : List Event} (hc : Changed x w who es w')
    (hes : ∀ e ∈ es, e.isMishap = false) : w'.Hale x := by
  unfold World.Hale at hw
  cases hc with
  | launch hp =>
    rw [hp] at hw
    exact ⟨_, _, .opening _ _ _ _ _ hw.1, .opening hw.1 hw.2 _ _ _⟩
  | member hp hi ha =>
    rw [hp] at hw
    obtain ⟨marks, f, hag, hH⟩ := hw
    obtain ⟨marks', hag', hH'⟩ := hH.played hag hi (Pass.played_of_advanced ha) hes
    exact ⟨marks', f, hag', hH'⟩
  | conductor hp ha =>
    rw [hp] at hw
    obtain ⟨marks, f, hag, hH⟩ := hw
    rcases ha.yields with ⟨rfl, hs⟩ | ⟨p, hs, hy⟩
    · exact ⟨marks, f, hag.rest rfl rfl hs, hH.rest rfl rfl⟩
    · have ht := Conductor.step_of_yields hy
      exact ⟨marks, f, hag.conductor rfl rfl hs ht rfl, hH.conductor ht rfl rfl⟩
  | @settle index g hp he =>
    rw [hp] at hw
    obtain ⟨marks, f, hag, hH⟩ := hw
    have hs := x.settled w index g
    generalize x.settle w index g = w' at hs
    cases hs with
    | next ho hl => exact ⟨(hag.of_all_ok he ho).1, hH.rested hag he ho hl⟩
    | _ => trivial
  | @clearing r s s' m es hp ha =>
    unfold World.Hale
    cases s'.stand.hasEnded <;> trivial
  | _ => trivial

theorem Run.hale (hr : x.Run m h w) (hf : m.failing.get x.flag = false) (hm : m.Rested x.site)
    (hh : ∀ e ∈ h, e.event.isMishap = false) : w.Hale x := by
  refine hr.induct (P := fun h w => (∀ e ∈ h, e.event.isMishap = false) →
    w.Hale x) (fun _ => ?_) ?_ hh
  · unfold World.Hale
    rcases x.start_point m with hp | hp <;> rw [hp]
    · exact ⟨hf, hm⟩
    · trivial
  · intro h w who es w' _ ih hc hh
    refine (ih fun e he => hh e (List.mem_append_left _ he)).step hc fun e he => ?_
    exact hh _ (List.mem_append_right _ (List.mem_map_of_mem he))

end Execution
end LoadBench
