import LoadBench.Proofs.Accord

/-!
# All or nothing

The members of one iteration end alike: all of them with a result, or none. A member that has a
result has seen everybody at the last checkpoint and every level torn down that it answers for, and
then nobody is left who could fail.
-/

namespace LoadBench

/-- The conductor changes nothing that members see in common, except when it
interrupts the iteration. -/
theorem Conductor.Step.view {c : Conductor} {m m' : Memory} {p : Point} {s : Stand Point Unit}
    (h : c.Step m p m' s) (site : Site) (f : Nat) :
    m'.view c.iteration site f = m.view c.iteration site f ∨
      p = .interrupt ∧ m'.view c.iteration site f =
        { m.view c.iteration site f with interrupted := true } := by
  have signalled {g : Signals → Signals} (hg : ∀ s : Signals, (g s).interrupted = s.interrupted) :
      (m.signal c.iteration g).view c.iteration site f = m.view c.iteration site f := by
    apply Memory.view_signal m
    unfold Memory.isInterrupted
    rw [Memory.signalsOf_signal_self, hg]
  cases h with
  | interrupt =>
    refine .inr ⟨rfl, ?_⟩
    unfold Memory.view Memory.isInterrupted
    rw [Memory.signalsOf_signal_self]
    rfl
  | openWindow | close | spoilWarmup | spoilWindow | spoil | spoilWarmdown
  | freeWarmdown | freeWarmup | freeWindow => exact .inl (signalled fun _ => rfl)
  | _ => exact .inl rfl

namespace Accord
variable {x : Execution} {index f : Nat} {m m' : Memory} {g g' : Group} {marks : List Nat}

section
variable {isLast : Bool} {v v' : View} {l : List (Stand Pass.Point Report)} {p : Pass.Point}
  {t : Stand Pass.Point Report} {i : Nat}

theorem live (h : Accord isLast v f l marks) {n : Nat} (hl : v.live = some n) : n = f := by
  rcases h.shelf with ⟨hs, _⟩ | hs | ⟨hs, _⟩
  · cases hl.symm.trans hs
  · cases hl.symm.trans hs
    rfl
  · cases hl.symm.trans hs

/-- Where somebody is departing, everybody has entered the warm loops. -/
theorem two_le_of_departed (hw : v.interrupted = true → ∀ r ∈ marks, 2 ≤ r) (hd : v.Departed marks)
    {r : Nat} (hr : r ∈ marks) : 2 ≤ r :=
  hd.elim (fun hi => hw hi r hr) fun h4 => by rw [h4 r hr]; decide

/-- Only one member at a time is at work at a level. -/
theorem apart (h : Accord isLast v f l marks) (hw : v.interrupted = true → ∀ r ∈ marks, 2 ≤ r)
    {j : Nat} {q : Pass.Point} {r n : Nat} (hij : i ≠ j) (hi : l[i]? = some (.point p))
    (hj : l[j]? = some (.point q)) (hr : marks[i]? = some r) (hn : marks[j]? = some n)
    (hp : p.Passed r) (hq : q.Passed n) {s s' : Stage} {o o' : Turn.Point}
    (hs : p.turn? = some (s, o)) (hs' : q.turn? = some (s', o')) (ho : o.isOwner = true)
    (hl : s'.level = s.level) :
    s' = s ∧ o'.isOwner = false := by
  have hr := List.mem_of_getElem? hr
  have hn := List.mem_of_getElem? hn
  have hss : s' = s := by
    rcases hp.turn hs with ⟨rfl, rfl⟩ | ⟨hd, rfl⟩
    · rcases hq.turn hs' with ⟨rfl, rfl⟩ | ⟨hd', rfl⟩
      · rfl
      · have h2 := two_le_of_departed hw (((h.vouched hj).turn hs').2.1 hd') hr
        omega
    · rcases hq.turn hs' with ⟨rfl, rfl⟩ | ⟨hd', rfl⟩
      · have h2 := two_le_of_departed hw (((h.vouched hi).turn hs).2.1 hd) hn
        omega
      · obtain ⟨l, d⟩ := s
        obtain ⟨l', d'⟩ := s'
        cases hd
        cases hd'
        cases hl
        rfl
  subst hss
  refine ⟨rfl, ?_⟩
  cases ho' : o'.isOwner with
  | false => rfl
  | true =>
    refine absurd ((h.exclusive (.gate s')).unique hi hj ?_ ?_) hij
    · simp [Pass.holds, Pass.Point.holds, hs, ho]
    · simp [Pass.holds, Pass.Point.holds, hs', ho']

/-- Who marks the trial failing at the last checkpoint, while the iteration is not interrupted, does
so in a turn whose level still stands. -/
theorem turn_of_condemns {r : Nat} (hp : p.Passed r) (hr : r = 4) (hc : p.Condemns)
    (hv : p.Vouched isLast v f marks)
    (he : ∀ phase text, p = .condemn phase text → r = 4 → v.failed = true) (hf : v.failed = false) :
    ∃ s x, p.turn? = some (s, .condemn x) ∧ s.direction = .tearDown ∧ ¬ v.Settled s := by
  subst hr
  rcases hc with rfl | ⟨phase, text, rfl⟩ | ⟨y, rfl⟩ | ⟨s, y, hs⟩
  · cases hp
  · exact absurd (he phase text rfl rfl) (Bool.eq_false_iff.mp hf)
  · cases hp
  · refine ⟨s, y, hs, ?_, (hv.turn hs).1.1⟩
    rcases hp.turn hs with ⟨_, h⟩ | ⟨hd, _⟩
    · cases h
    · exact hd

/-- Nobody but the owner of a turn can mark the trial failing while a hook of a teardown is due. -/
theorem settled_of_condemns (h : Accord isLast v f l marks) {j : Nat} {q : Pass.Point}
    {r : Nat} (hij : i ≠ j) (hi : l[i]? = some (.point p)) (hj : l[j]? = some (.point q))
    (hr : marks[i]? = some r) (hp : p.Passed r) (he : ∀ phase text, p = .condemn phase text →
      r = 4 → v.failed = true)
    (hc : p.Condemns) (hf : v.failed = false) (hI : v.interrupted = false) {s' : Stage}
    {o' : Turn.Point} (hs' : q.turn? = some (s', o')) (hd' : s'.direction = .tearDown)
    (ho' : o'.isOwner = true) : v.Settled s' := by
  have h4 : r = 4 := (((h.vouched hj).turn hs').2.1 hd').resolve_left (Bool.eq_false_iff.mp hI) r
    (List.mem_of_getElem? hr)
  obtain ⟨s, y, hs, hd, hn⟩ := turn_of_condemns hp h4 hc (h.vouched hi) he hf
  have hne : s' ≠ s := by
    rintro rfl
    refine hij ((h.exclusive (.gate s')).unique hi hj ?_ ?_)
    · simp [Pass.holds, Pass.Point.holds, hs, Turn.Point.isOwner]
    · simp [Pass.holds, Pass.Point.holds, hs', ho']
  rcases Pass.Point.turn?_stage hs with rfl | rfl | rfl
  · cases hd
  · rcases Pass.Point.turn?_stage hs' with rfl | rfl | rfl
    · cases hd'
    · exact absurd rfl hne
    · exact absurd (((h.vouched hj).turn hs').2.2 rfl).1 hn
  · rcases Pass.Point.turn?_stage hs' with rfl | rfl | rfl
    · cases hd'
    · exact (((h.vouched hi).turn hs).2.2 rfl).1
    · exact absurd rfl hne

/-- Whoever is about to publish does so before anybody has got a fixture. -/
theorem vacant_of_publish (h : Accord isLast v f l marks) {value r : Nat}
    (hi : l[i]? = some (.point (.acquire (.publish value)))) (hr : marks[i]? = some r)
    (hp : r = 0) :
    v.published = f ∧ ∀ u ∈ l, Pass.isEquipped u = false := by
  have hlive : v.live = none := h.vouched hi
  rcases h.shelf with ⟨_, hn, hu⟩ | hs | ⟨_, _, h2, _⟩
  · exact ⟨hn, hu⟩
  · cases hs.symm.trans hlive
  · have := h2 r (List.mem_of_getElem? hr)
    omega

/-- What the others vouch for outlasts the deed of a member. -/
theorem others (h : Accord isLast v f l marks) (hw : v.interrupted = true → ∀ r ∈ marks, 2 ≤ r)
    (hmarks : ∀ {j : Nat} {q : Pass.Point}, l[j]? = some (.point q) →
      ∃ n, marks[j]? = some n ∧ q.Passed n)
    {r : Nat} (hi : l[i]? = some (.point p)) (hr : marks[i]? = some r) (hp : p.Passed r)
    (he : ∀ phase text, p = .condemn phase text → r = 4 → v.failed = true)
    (hleave : ∀ s o, p.turn? = some (s, .leave o) → o.isOk = false → v.failed = true)
    (hd : Pass.Deed f p t v v') {j : Nat} {u : Stand Pass.Point Report} (hij : i ≠ j)
    (hj : l[j]? = some u) : Pass.Vouched isLast v' f marks u := by
  have hv : p.Vouched isLast v f marks := h.vouched hi
  rcases p.publishes_or with ⟨value, rfl⟩ | hpub
  · -- the publisher is alone in the section, and nobody has got a fixture yet
    refine .of_unequipped ?_ ?_
    · exact (h.vacant_of_publish hi hr hp).2 u (List.mem_of_getElem? hj)
    · cases hs : Pass.holds u .site with
      | false => rfl
      | true => exact absurd ((h.exclusive .site).unique hi hj rfl hs) hij
  · refine (h.vouched hj).deed hd ?_ ?_ hpub
    · rintro q s o rfl hs hq
      obtain ⟨n, hn, hqn⟩ := hmarks hj
      refine Pass.Sound.deed hq hd ?_ ?_ ?_ hpub
      · exact fun hc hf hI hdir ho => h.settled_of_condemns hij hi hj hr hp he hc hf hI hs hdir ho
      · intro o' ho'
        cases hok : o'.isOk with
        | true => exact .inl ((hv.turn ho').1 hok)
        | false => exact .inr (hleave s o' ho' hok)
      · intro s' hs' hl
        exact h.apart hw hij hi hj hr hn hp hqn hs' hs rfl hl
    · intro hc hd
      have h2 := two_le_of_departed hw hd (List.mem_of_getElem? hr)
      rcases hp.turn hc with ⟨_, h1⟩ | ⟨h1, _⟩
      · omega
      · cases h1

theorem le_of_mem_raised {b r r' : Nat} (hr : marks[i]? = some r) (hle : r ≤ r')
    (h : ∀ n ∈ marks, b ≤ n) :
    ∀ n ∈ marks.set i r', b ≤ n := by
  intro n hn
  rcases List.mem_or_eq_of_mem_set hn with hn | rfl
  · exact h n hn
  · exact Nat.le_trans (h r (List.mem_of_getElem? hr)) hle

theorem all_four_raised {r r' : Nat} (hr : marks[i]? = some r) (hle : r ≤ r') (hr' : r' ≤ 4)
    (h : ∀ n ∈ marks, n = 4) : ∀ n ∈ marks.set i r', n = 4 := by
  intro n hn
  rcases List.mem_or_eq_of_mem_set hn with hn | rfl
  · exact h n hn
  · have := h r (List.mem_of_getElem? hr)
    omega

theorem shelf_deed (h : Accord isLast v f l marks) (hw : v.interrupted = true → ∀ r ∈ marks, 2 ≤ r)
    {r r' : Nat} (hi : l[i]? = some (.point p)) (hr : marks[i]? = some r) (hp : p.Passed r)
    (hle : r ≤ r') (hd : Pass.Deed f p t v v')
    (hput : ∀ value, p = .acquire (.publish value) → v'.live = some f)
    (hnone : p.isEquipped = false → v.live = none → (∀ value, p ≠ .acquire (.publish value)) →
      Pass.isEquipped t = false)
    (hclear : ∀ y o, p = .release y (.clearing o .store) → o.isOk = false →
      v.failed = true ∨ v.interrupted = true) : v'.Shelf isLast f (l.set i t) (marks.set i r') := by
  have hv : p.Vouched isLast v f marks := h.vouched hi
  rcases p.publishes_or with ⟨value, hpub⟩ | hpub
  · exact .inr (.inl (hput value hpub))
  · rcases h.shelf with ⟨hs, hn, hu⟩ | hs | ⟨hs, hl, h2, h3⟩
    · refine .inl ⟨hd.live hpub hs, ?_, ?_⟩
      · cases hd with
        | publish hc => exact absurd hc (hpub _)
        | _ => exact hn
      · intro u hu'
        rcases List.mem_or_eq_of_mem_set hu' with hu' | rfl
        · exact hu u hu'
        · exact hnone (hu _ (List.mem_of_getElem? hi)) hs hpub
    · cases hd with
      | publish hc => exact absurd hc (hpub _)
      | @clear y o hc =>
        subst hc
        obtain ⟨hdep, _, hlast, ho, _⟩ := hv
        refine .inr
          (.inr ⟨rfl, hlast, le_of_mem_raised hr hle fun n hn => two_le_of_departed hw hdep hn, ?_⟩)
        cases hok : o.isOk with
        | true => exact (ho hok).imp id .inr
        | false => exact .inr (hclear y o rfl hok)
      | _ => exact .inr (.inl hs)
    · refine .inr (.inr ⟨hd.live hpub hs, hl, le_of_mem_raised hr hle h2, ?_⟩)
      exact h3.imp (hd.settled_tearDown nofun hpub)
        fun h => h.imp hd.failed fun hi => hd.interrupted.trans hi

theorem blamed_deed (h : Accord isLast v f l marks) {r r' : Nat} (hi : l[i]? = some (.point p))
    (hr : marks[i]? = some r) (hp : p.Passed r) (hle : r ≤ r') (hr' : r' ≤ 4)
    (hd : Pass.Deed f p t v v') (he : ∀ phase text, p = .condemn phase text → r = 4 →
      v.failed = true)
    (hkeep : Pass.Doomed t → r' = r) (hdoomed : Pass.Doomed (.point p) → Pass.Doomed t)
    (hfails : v.failed = false → v'.failed = true → Pass.Doomed t)
    (hf' : v'.failed = true) : v'.Blamed isLast (l.set i t) (marks.set i r') := by
  have hv : p.Vouched isLast v f marks := h.vouched hi
  obtain ⟨hilt, _⟩ := List.getElem?_eq_some_iff.mp hi
  obtain ⟨hrlt, _⟩ := List.getElem?_eq_some_iff.mp hr
  -- a member at the last checkpoint changes no level once the trial is failing
  have stands (h4 : ∀ n ∈ marks, n = 4) (hf : v.failed = true)
      (hI : v.interrupted = false) (s : Stage) :
      v'.Settled s ↔ v.Settled s := by
    have hr4 := h4 r (List.mem_of_getElem? hr)
    apply hd.settled
    · intro s' hs' _
      rcases hp.turn hs' with ⟨_, h1⟩ | ⟨hdir, _⟩
      · omega
      · exact absurd ((hv.turn hs').1.2 hdir hf) (Bool.eq_false_iff.mp hI)
    · intro value hc
      subst hc
      have hr : r = 0 := hp
      subst hr
      omega
  -- who is doomed stays doomed, with the same mark
  have mine (hdt : Pass.Doomed t) (hlt : r < 4) : v'.Blamed isLast (l.set i t) (marks.set i r') :=
    .inr (.inl ⟨i, t, r', by simp [hilt], by simp [hrlt], hdt, hkeep hdt ▸ hlt⟩)
  cases hI : v.interrupted with
  | true => exact .inl (hd.interrupted.trans hI)
  | false =>
    cases hf : v.failed with
    | true =>
      rcases h.blamed hf with hI' | ⟨j, u, n, hj, hn, hdu, hlt⟩ | ⟨h4, hs⟩ | ⟨h4, hl, hs⟩
      · exact absurd hI' (Bool.eq_false_iff.mp hI)
      · by_cases hij : i = j
        · subst hij
          cases hi.symm.trans hj
          cases hr.symm.trans hn
          exact mine (hdoomed hdu) hlt
        · exact .inr (.inl ⟨j, u, n, by simp [hij, hj], by simp [hij, hn], hdu, hlt⟩)
      · exact .inr
          (.inr (.inl ⟨all_four_raised hr hle hr' h4, fun h => hs ((stands h4 hf hI _).mp h)⟩))
      · exact .inr (.inr (.inr ⟨all_four_raised hr hle hr' h4, hl,
          fun h => hs ((stands h4 hf hI _).mp h)⟩))
    | false =>
      have hc := hd.condemns hf hf'
      have hdt := hfails hf hf'
      by_cases hlt : r < 4
      · exact mine hdt hlt
      · have h4 : r = 4 := by omega
        obtain ⟨s, y, hs, hdir, hn⟩ := turn_of_condemns hp h4 hc hv he hf
        have hall := ((hv.turn hs).2.1 hdir).resolve_left (Bool.eq_false_iff.mp hI)
        have same : v'.Settled s ↔ v.Settled s :=
          hd.settled (fun s' hs' _ => by cases hs.symm.trans hs')
            fun value hc => by subst hc; cases hs
        have hn' : ¬ v'.Settled s := fun h => hn (same.mp h)
        rcases Pass.Point.turn?_stage hs with rfl | rfl | rfl
        · cases hdir
        · exact .inr (.inr (.inl ⟨all_four_raised hr hle hr' hall, hn'⟩))
        · exact .inr (.inr (.inr ⟨all_four_raised hr hle hr' hall, ((hv.turn hs).2.2 rfl).2, hn'⟩))

end

theorem deed (h : Accord g.iteration.isLast (m.view g.iteration x.site f) f g.stands marks)
    {i : Nat} {p : Pass.Point} {t : Stand Pass.Point Report} {r : Nat}
    (hi : g.stands[i]? = some (.point p)) (ht : (x.pass g.iteration i).Step m p m' t)
    (hr : marks[i]? = some r) (hp : p.Passed r) :
    Pass.Deed f p t (m.view g.iteration x.site f) (m'.view g.iteration x.site f) := by
  have hv : p.Vouched g.iteration.isLast (m.view g.iteration x.site f) f marks := h.vouched hi
  apply ht.deed (f := f) (fun _ => hv.fixture)
  intro value hc
  subst hc
  exact (h.vacant_of_publish hi hr hp).1

theorem member (h : Accord g.iteration.isLast (m.view g.iteration x.site f) f g.stands marks)
    (hP : g.Paced x index m marks) {i : Nat} {p : Pass.Point} {t : Stand Pass.Point Report}
    {r r' : Nat} (hi : g.stands[i]? = some (.point p)) (ht : (x.pass g.iteration i).Step m p m' t)
    (hr : marks[i]? = some r) (hp : p.Passed r) (ht' : Pass.Passed t r') (hle : r ≤ r')
    (hkeep : Pass.Doomed t → r' = r) :
    Accord g.iteration.isLast (m'.view g.iteration x.site f) f (g.stands.set i t)
      (marks.set i r') := by
  have hv : p.Vouched g.iteration.isLast (m.view g.iteration x.site f) f marks := h.vouched hi
  have he : p.Excused m g.iteration r := hP.excused hi hr
  have hr' : r' ≤ 4 := Pass.passed_le_four ht'
  have hpub (value : Nat) (hc : p = .acquire (.publish value)) : m.published = f := by
    subst hc
    exact (h.vacant_of_publish hi hr hp).1
  have hd := h.deed hi ht hr hp
  have hcondemn (phase : Phase) (text : String) (hc : p = .condemn phase text) (h4 : r = 4) :
      m.hasFailed g.iteration = true := by
    subst hc
    exact he h4
  have hw (hI : m.isInterrupted g.iteration = true) {n : Nat} (hn : n ∈ marks) : 2 ≤ n :=
    hP.two_le_of_interrupted hI hn
  have hmet
      (hn : (x.pass g.iteration i).iteration.threads ≤ (m.signalsOf g.iteration).tearDownArrivals) :
      ∀ n ∈ marks, n = 4 := by
    intro n hn'
    have h4 := hP.attendance.of_complete (k := .tearDown) rfl
      (Nat.le_trans (Nat.le_of_eq (hP.length.trans (congrArg _ hP.threads.symm))) hn) hn'
    exact Nat.le_antisymm (hP.attendance.le_four hn') h4
  constructor
  · intro k
    rcases p.publishes_or with ⟨value, rfl⟩ | hpublish
    · cases k with
      | site => exact (h.exclusive .site).deed hi hd (.inl rfl)
      | gate s =>
        -- a published fixture has gates that nobody has entered yet
        apply Exclusive.of_none
        intro u hu
        rcases List.mem_or_eq_of_mem_set hu with hu | rfl
        · exact Pass.holds_gate_of_unequipped ((h.vacant_of_publish hi hr hp).2 u hu) s
        · cases ht with
          | acquire ht =>
            cases ht
            rfl
          | acquired ht => cases ht
    · exact (h.exclusive k).deed hi hd (.inr hpublish)
  · intro j u hj
    rcases getElem?_set_eq_some hj with ⟨_, rfl⟩ | ⟨hij, hj⟩
    · refine Pass.Vouched.mono_marks ?_ (all_four_raised hr hle hr')
      refine ht.vouched hv he (fun n hl => h.live hl) ?_ hpub hmet
      intro heq hl
      rcases h.shelf with ⟨_, _, hu⟩ | hs | ⟨_, _, _, h3⟩
      · exact absurd heq (Bool.eq_false_iff.mp (hu _ (List.mem_of_getElem? hi)))
      · cases hs.symm.trans hl
      · exact h3
    · refine Pass.Vouched.mono_marks ?_ (all_four_raised hr hle hr')
      refine h.others (fun hI n hn => hw hI hn) (fun hq => hP.attendance.mark hq) hi hr hp
        hcondemn ?_ hd hij hj
      exact fun s o hs ho => he.turn hs ho
  · apply h.shelf_deed (fun hI n hn => hw hI hn) hi hr hp hle hd
    · rintro value rfl
      exact ht.publishes (hpub value rfl)
    · exact fun hu hl hpublish => ht.unequipped hu hl hpublish
    · rintro y o rfl ho
      cases o with
      | ok v => cases ho
      | failed e => exact he.2
      | crashed text => exact .inl he.2
  · exact h.blamed_deed hi hr hp hle hr' hd hcondemn hkeep ht.doomed fun hf hf' =>
      ht.doomed_of_failed hf hf'

theorem opening (x : Execution) (index created : Nat) (m : Memory)
    (hf : m.failing.get x.flag = false) (isLast : Bool) (n : Nat) :
    Accord isLast (m.view (x.iteration index created) x.site ((m.live? x.site).getD m.published))
      ((m.live? x.site).getD m.published) (List.replicate n Pass.start) (List.replicate n 0) := by
  have begins {t : Stand Pass.Point Report} (ht : t ∈ List.replicate n Pass.start) :
      t = Pass.start :=
    List.eq_of_mem_replicate ht
  constructor
  · intro k
    apply Exclusive.of_none
    intro t ht
    rw [begins ht]
    cases k <;> rfl
  · intro i t hi
    rw [begins (List.mem_of_getElem? hi)]
    trivial
  · cases hl : m.live? x.site with
    | none =>
      refine .inl ⟨hl, rfl, ?_⟩
      intro t ht
      rw [begins ht]
      rfl
    | some f => exact .inr (.inl hl)
  · exact fun h => Bool.noConfusion (h.symm.trans hf)

/-- An interruption breaks no agreement, as long as nobody has ended with a result. -/
theorem interrupt {isLast : Bool} {v : View} {l : List (Stand Pass.Point Report)}
    (h : Accord isLast v f l marks) (hr : ∀ t ∈ l, ∀ r, t ≠ .ended (.ok r)) :
    Accord isLast { v with interrupted := true } f l marks := by
  constructor
  · intro k
    have hk := h.exclusive k
    cases k <;> exact ⟨fun hi ht => hk.taken hi ht, fun hi hj ht hu => hk.unique hi hj ht hu⟩
  · exact fun hi => (h.vouched hi).interrupt (hr _ (List.mem_of_getElem? hi))
  · exact h.shelf.imp_right fun hs => hs.imp_right fun ⟨h1, h2, h3, _⟩ =>
      ⟨h1, h2, h3, .inr (.inr rfl)⟩
  · exact fun _ => .inl rfl

/-- Whoever has a result has seen everybody come through and everything torn down. -/
theorem of_ok {isLast : Bool} {v : View} {l : List (Stand Pass.Point Report)}
    (h : Accord isLast v f l marks) {i : Nat} {r : Report} (hi : l[i]? = some (.ended (.ok r))) :
    v.failed = false ∧ v.interrupted = false ∧ (∀ n ∈ marks, n = 4) ∧
      v.Settled ⟨.iteration, .tearDown⟩ ∧ (isLast = true → v.live = none) ∧
      (isLast = false → v.live = some f) := by
  obtain ⟨hI, hd, hs, hsp⟩ : Pass.Vouched isLast v f marks (.ended (.ok r)) := h.vouched hi
  have h4 := hd.resolve_left (Bool.eq_false_iff.mp hI)
  refine ⟨?_, hI, h4, hs, fun hl => (hsp hl).1, ?_⟩
  · cases hf : v.failed with
    | false => rfl
    | true =>
      rcases h.blamed hf with hI' | ⟨j, u, n, _, hn, _, hlt⟩ | ⟨_, hn⟩ | ⟨_, hl, hn⟩
      · exact absurd hI' (Bool.eq_false_iff.mp hI)
      · have := h4 n (List.mem_of_getElem? hn)
        omega
      · exact absurd hs hn
      · exact absurd ((hsp hl).2.resolve_right (Bool.eq_false_iff.mp hI)) hn
  · intro hl
    rcases h.shelf with ⟨_, _, hu⟩ | hs | ⟨_, hl', _⟩
    · cases hu _ (List.mem_of_getElem? hi)
    · exact hs
    · exact Bool.noConfusion (hl'.symm.trans hl)

end Accord
namespace Group
variable {x : Execution} {index : Nat} {m m' : Memory} {g g' : Group}

def Agreed (x : Execution) (index : Nat) (m : Memory) (g : Group) (marks : List Nat)
    (f : Nat) : Prop :=
  g.Paced x index m marks ∧ Accord g.iteration.isLast (m.view g.iteration x.site f) f g.stands marks

theorem Agreed.opening (x : Execution) (index created : Nat) (m : Memory) (mask : UInt32)
    (hf : m.failing.get x.flag = false) :
    (x.group (x.iteration index created)).Agreed x index
      { m with signals := m.signals.put (x.iteration index created).number { mask } }
        (List.replicate x.threads 0)
      ((m.live? x.site).getD m.published) := by
  refine ⟨.opening x index created m mask, ?_⟩
  rw [stands_group]
  exact Accord.opening x index created
    { m with signals := m.signals.put (x.iteration index created).number { mask } } hf _ _

theorem Agreed.stance {marks : List Nat} {f : Nat} (h : g.Agreed x index m marks f) {i : Nat}
    {s : Strand Pass.Point Report} {p : Pass.Point} (hi : g.members[i]? = some s)
    (hp : s.stand = .point p) :
    g.stands[i]? = some (.point p) ∧
      p.Vouched g.iteration.isLast (m.view g.iteration x.site f) f marks ∧
      ∃ r, marks[i]? = some r ∧ p.Passed r := by
  have hi' : g.stands[i]? = some (.point p) := hp ▸ getElem?_stands hi
  exact ⟨hi', h.2.vouched hi', h.1.attendance.mark hi'⟩

theorem Agreed.rest {marks : List Nat} {f : Nat} (h : g.Agreed x index m marks f)
    (hc : g'.iteration = g.iteration) (hs : g'.stands = g.stands)
    (hd : g'.conductor.stand = g.conductor.stand) : g'.Agreed x index m marks f := by
  obtain ⟨hP, hA⟩ := h
  refine ⟨hP.rest hc hs hd, ?_⟩
  rw [hc, hs]
  exact hA

theorem Agreed.member {marks : List Nat} {f : Nat} (h : g.Agreed x index m marks f) {i : Nat}
    {p : Pass.Point} {t : Stand Pass.Point Report} (hc : g'.iteration = g.iteration)
    (hi : g.stands[i]? = some (.point p)) (ht : (x.pass g.iteration i).Step m p m' t)
    (hs : g'.stands = g.stands.set i t) (hd : g'.conductor.stand = g.conductor.stand) :
    ∃ r r', marks[i]? = some r ∧ p.Passed r ∧ Pass.Passed t r' ∧ r ≤ r' ∧ (Pass.Doomed t → r' = r) ∧
      g'.Agreed x index m' (marks.set i r') f := by
  obtain ⟨hP, hA⟩ := h
  obtain ⟨r, r', hr, hp, ht', hle, hkeep, hP'⟩ := hP.member hc hi ht hs hd
  refine ⟨r, r', hr, hp, ht', hle, hkeep, hP', ?_⟩
  rw [hc, hs]
  exact hA.member hP hi ht hr hp ht' hle hkeep

theorem Agreed.conductor {marks : List Nat} {f : Nat} (h : g.Agreed x index m marks f)
    {p : Conductor.Point} {s : Stand Conductor.Point Unit} (hc : g'.iteration = g.iteration)
    (hs : g'.stands = g.stands) (hp : g.conductor.stand = .point p)
    (ht : (x.conductor g.iteration).Step m p m' s) (hd : g'.conductor.stand = s) :
    g'.Agreed x index m' marks f := by
  obtain ⟨hP, hA⟩ := h
  refine ⟨hP.conductor hc hs hp ht hd, ?_⟩
  rw [hc, hs]
  rcases ht.view x.site f with hv | ⟨rfl, hv⟩
  · exact hv ▸ hA
  · apply hv ▸ hA.interrupt
    intro t ht r hr
    -- whoever has a result was let go by the conductor, which has not come to that
    have hk := hP.knows
    rw [hp] at hk
    obtain ⟨j, hj⟩ := List.mem_iff_getElem?.mp ht
    subst hr
    have hfree : Pass.Released x.trial.benchmark.mode (m.signalsOf g.iteration) (.ended (.ok r)) :=
      hP.released hj
    exact Bool.noConfusion ((hfree hk.1).symm.trans hk.2.1)

theorem Agreed.moved {marks : List Nat} {f : Nat} (h : g.Agreed x index m marks f)
    (hm : g.Moved x m m' g') : ∃ marks', g'.Agreed x index m' marks' f := by
  cases hm with
  | rest hc hs hd => exact ⟨marks, h.rest hc hs hd⟩
  | member hc hi ht hs hd =>
    obtain ⟨r, r', _, _, _, _, _, h'⟩ := h.member hc hi ht hs hd
    exact ⟨_, h'⟩
  | conductor hc hs hp ht hd => exact ⟨marks, h.conductor hc hs hp ht hd⟩

/-- Where every member has ended with a result, all of them have come through and
everything is torn down. -/
theorem Agreed.of_all_ok {marks : List Nat} {f : Nat} (h : g.Agreed x index m marks f)
    (he : g.hasEnded = true) (ho : ∀ o ∈ g.outcomes, o.isOk = true) :
    m.failing.get x.flag = false ∧ (∀ n ∈ marks, n = 4) ∧
      (m.view g.iteration x.site f).Settled ⟨.iteration, .tearDown⟩ ∧
      (index + 1 = x.trial.iterations → m.live? x.site = none) ∧
      (index + 1 ≠ x.trial.iterations → m.live? x.site = some f) := by
  obtain ⟨hP, hA⟩ := h
  have hpos : 0 < g.stands.length := hP.length ▸ x.threads.pos
  obtain ⟨r, hr⟩ := Group.ended_ok he ho (List.getElem_mem hpos)
  obtain ⟨hf, _, h4, hs, hlast, hnext⟩ :=
    hA.of_ok (i := 0) (List.getElem?_eq_some_iff.mpr ⟨hpos, hr⟩)
  have hc := hP.iteration
  refine ⟨?_, h4, hs, fun hl => hlast ?_, fun hl => hnext ?_⟩
  · rw [← hf, hc]
    rfl
  · rw [hc]
    exact decide_eq_true hl
  · rw [hc]
    exact decide_eq_false hl

end Group

namespace Execution
variable {x : Execution} {m : Memory} {h : List Entry} {w : World} {index : Nat} {g : Group}

/-- Along a run that starts with a clear failure flag, every running group is agreed, and every
launch finds the flag clear. -/
theorem Run.agreed (hr : x.Run m h w) (hf : m.failing.get x.flag = false) :
    (∀ {index : Nat} {mask : UInt32}, w.point = .launch index mask →
      w.memory.failing.get x.flag = false) ∧
      ∀ {index : Nat} {g : Group}, w.point = .running index g →
        ∃ marks f, g.Agreed x index w.memory marks f := by
  refine hr.along (L := fun _ m => m.failing.get x.flag = false)
    (P := fun index m g => ∃ marks f, g.Agreed x index m marks f) hf ?_ ?_ ?_
  · exact fun hf => ⟨_, _, .opening _ _ _ _ _ hf⟩
  · rintro _ _ _ _ _ hm ⟨marks, f, ha⟩
    obtain ⟨marks', ha'⟩ := ha.moved hm
    exact ⟨marks', f, ha'⟩
  · rintro index m g ⟨marks, f, ha⟩ he ho _
    exact (ha.of_all_ok he ho).1

/-- The members of an iteration that have ended all have a result, or none of them has. -/
theorem Run.all_or_nothing (hr : x.Run m h w) (hf : m.failing.get x.flag = false)
    (hp : w.point = .running index g) :
    ((∀ o ∈ g.outcomes, o.isOk = true) ∨ ∀ o ∈ g.outcomes, o.isOk = false) ∧
      (g.hasEnded = true → g.outcomes.length = x.threads) := by
  obtain ⟨marks, f, hP, hA⟩ := (hr.agreed hf).2 hp
  refine ⟨?_, fun he => (Group.length_outcomes he).trans hP.length⟩
  by_cases hok : ∃ r, .ok r ∈ g.outcomes
  · -- somebody has a result, so nobody has had a reason to fail
    obtain ⟨r, hok⟩ := hok
    obtain ⟨i, hi⟩ := List.mem_iff_getElem?.mp (Group.mem_outcomes.mp hok)
    obtain ⟨hclear, hI, _⟩ := hA.of_ok hi
    left
    intro o ho
    obtain ⟨j, hj⟩ := List.mem_iff_getElem?.mp (Group.mem_outcomes.mp ho)
    obtain ⟨n, hn, _⟩ := hP.attendance.mark hj
    have he : o.Excused w.memory g.iteration := hP.excused hj hn
    cases o with
    | ok v => rfl
    | failed e =>
      rcases he with hf | hi
      · exact absurd hf (Bool.eq_false_iff.mp hclear)
      · exact absurd hi (Bool.eq_false_iff.mp hI)
    | crashed text => exact absurd he (Bool.eq_false_iff.mp hclear)
  · right
    intro o ho
    cases o with
    | ok r => exact absurd ⟨r, ho⟩ hok
    | failed e | crashed text => rfl

theorem all_or_nothing_duet :
    ∃ index g, (duet.play (rounds 76 (.returned 0)) (duet.start {})).2.point = .running index g ∧
      g.hasEnded = true ∧ g.outcomes.length = 2 ∧ ∀ o ∈ g.outcomes, o.isOk = true := by
  have hr := run_play duet {} (rounds 76 (.returned 0))
  have hend : (duet.play (rounds 76 (.returned 0)) (duet.start {})).2.running?.any (fun q =>
      q.2.hasEnded && q.2.outcomes.any Outcome.isOk) = true := by decide +kernel
  obtain ⟨⟨index, g⟩, hg, he⟩ := (Option.any_eq_true _ _).mp hend
  obtain ⟨he, hok⟩ := Bool.and_eq_true_iff.mp he
  obtain ⟨o, ho, hok⟩ := List.any_eq_true.mp hok
  have hp := World.point_of_running? hg
  obtain ⟨hall, hlen⟩ := hr.all_or_nothing (by decide) hp
  refine ⟨index, g, hp, he, hlen he, hall.resolve_right ?_⟩
  intro hn
  exact Bool.noConfusion (hok.symm.trans (hn o ho))

end Execution
end LoadBench
