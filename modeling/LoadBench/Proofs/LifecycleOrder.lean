import LoadBench.Proofs.Chronicle

/-!
# Lifecycle order

In a trial that starts at a vacant site, and of which no iteration runs out of time, the calls of
the hooks and of the workload come in the order of the lifecycle: every hook is called at most once,
those of the iteration level once for each iteration; the workload is called between the return of
the set-up of the iteration and the call of its teardown; and the cleanup comes last, after the
teardown of the last iteration has returned (`Execution.Run.lawful`).
-/

namespace LoadBench

/-! ### The conductor -/

/-- A conductor notes that time has run out before it interrupts the iteration. -/
theorem Conductor.timeOut_of_advanced {c : Conductor} {now : Nat} {m m' : Memory}
    {s s' : Strand Conductor.Point Unit} {es : List Event}
    (h : s.Advanced (c.step now m) m m' es s') (hs : s.stand ≠ .point .interrupt)
    (hs' : s'.stand = .point .interrupt) :
    ∃ e ∈ es, e.isTimeOut = true := by
  have judging {p : Conductor.Point} {t : Stand Conductor.Point Unit} (ht : c.Step m p m' t)
      (hi : t = .point .interrupt) : p = .judge := by
    cases ht <;> cases hi
    rfl
  cases h with
  | @act p m' notes t hp hv =>
    obtain rfl := judging (step_of_yields (by rw [hv]; exact ⟨rfl, rfl⟩)) hs'
    simp only [step] at hv
    split at hv
    · cases hv
      exact ⟨_, List.mem_cons_self, rfl⟩
    · cases hv
      cases hs'
  | call hp hv hc => exact absurd (hp.trans hs') hs
  | @reply p q k r hp hv hc hr =>
    obtain rfl := judging (step_of_yields (by rw [hv]; exact ⟨rfl, r, hr, rfl⟩)) hs'
    simp only [step] at hv
    split at hv <;> cases hv

/-! ### A member that calls -/

namespace Pass
variable {a : Pass} {m : Memory} {p : Point} {q : Request} {s : Stage} {r : Nat} {marks : List Nat}

/-- Every hook but those that make the fixture is called in a turn. -/
theorem turn?_of_call (hc : a.call? m p = some q) (hq : q.hook? = some (.stage s))
    (hs : s ≠ ⟨.trial, .setUp⟩) :
    p.turn? = some (s, .hook) := by
  cases p with
  | acquire p =>
    cases p <;> cases hc <;> cases hq
    exact absurd rfl hs
  | setUp f p | tearDown f r p =>
    cases p <;> cases hc
    cases hq
    rfl
  | release r p =>
    cases p with
    | cleaning f p =>
      cases p <;> cases hc
      cases hq
      rfl
    | _ => cases hc
  | measure f ops p =>
    cases p <;> cases hc
    cases hq
  | warmupWork | warmdownWork => cases hc; cases hq
  | _ => cases hc

theorem isEquipped_of_turn? {o : Turn.Point} (h : p.turn? = some (s, o)) : p.isEquipped = true := by
  cases p with
  | setUp | tearDown | release => rfl
  | _ => cases h

/-- Behind the last checkpoint only the two teardowns are called. -/
theorem tearDown_of_call (hc : a.call? m p = some q) (hp : p.Passed 4) :
    ∃ s : Stage, q.hook? = some (.stage s) ∧
      (s = ⟨.iteration, .tearDown⟩ ∨ s = ⟨.trial, .tearDown⟩) := by
  cases p with
  | acquire p | setUp f p | measure f ops p => cases hp
  | warmupWork | warmdownWork => cases hp
  | tearDown f r p =>
    cases p <;> cases hc
    exact ⟨_, rfl, .inl rfl⟩
  | release r p =>
    cases p with
    | cleaning f p =>
      cases p <;> cases hc
      exact ⟨_, rfl, .inr rfl⟩
    | _ => cases hc
  | _ => cases hc

end Pass

/-! ### Running iterations -/

def Execution.Lawfully (x : Execution) (h more : List Entry) : Prop :=
  Throughout (fun past e => ∀ q, e.event = .called q → x.Lawful (h ++ past) e.iteration q) more

theorem Execution.Lawfully.of_no_call {x : Execution} {h : List Entry} {es : List Event}
    {f : Event → Entry} (he : ∀ q, .called q ∉ es)
    (hf : ∀ e, (f e).event = e := by exact fun _ => rfl) :
    x.Lawfully h (es.map f) := by
  apply Throughout.of_forall
  intro e hmem past q hq
  obtain ⟨ev, hev, rfl⟩ := List.mem_map.mp hmem
  exact absurd (((hf ev).symm.trans hq) ▸ hev) (he q)

theorem Execution.Lawfully.of_quiet {x : Execution} {h : List Entry} {es : List Event}
    {f : Event → Entry} (he : ∀ e ∈ es, e.isQuiet = true)
    (hf : ∀ e, (f e).event = e := by exact fun _ => rfl) :
    x.Lawfully h (es.map f) := by
  apply Throughout.of_forall
  intro e hmem past q hq
  obtain ⟨ev, hev, rfl⟩ := List.mem_map.mp hmem
  obtain ⟨d, rfl⟩ := Event.sleep_of_quiet (((hf ev).symm.trans hq) ▸ he ev hev)
  exact .sleep d

namespace Group

/-- What is certain, while an iteration is running, of what was called and
what has returned so far. -/
structure Orderly (x : Execution) (index : Nat) (h : List Entry) (m : Memory) (g : Group)
    (marks : List Nat) (f : Nat) : Prop where
  calm : m.isInterrupted g.iteration = false
  patient : g.conductor.stand ≠ .point .interrupt
  recent : ∀ e ∈ h, ∀ i, e.iteration = some i → i ≤ index
  accounted : ∀ k : Hook, k.Accounted (Began h (some index) k)
    (m.view g.iteration x.site f) marks g.members
  staged : Staged (Began h (some index)) (Returned h (some index))
    (m.view g.iteration x.site f) marks g.stands
  tornDown : Began h (some index) (.stage ⟨.iteration, .tearDown⟩) → ∀ r ∈ marks, r = 4
  cleaned : Began h (some index) (.stage ⟨.trial, .tearDown⟩) → (∀ r ∈ marks, r = 4) ∧
    g.iteration.isLast = true ∧ (m.view g.iteration x.site f).Settled ⟨.iteration, .tearDown⟩
  balanced : ∀ who, g.Balanced h index marks who

/-- Whatever hook a member calls has not begun. -/
theorem Agreed.not_began {x : Execution} {index f i : Nat} {h : List Entry} {m : Memory} {g : Group}
    {marks : List Nat} {s : Strand Pass.Point Report} {p : Pass.Point} {q : Request} {k : Hook}
    (ha : g.Agreed x index m marks f)
    (hacc : k.Accounted (Began h (some index) k) (m.view g.iteration x.site f) marks g.members)
    (hi : g.members[i]? = some s) (hp : s.stand = .point p) (hs : s.calling = false)
    (hc : (x.pass g.iteration i).call? m p = some q) (hk : q.hook? = some k) :
    ¬ Began h (some index) k := by
  obtain ⟨_, hv, r, hr, hpr⟩ := ha.stance hi hp
  obtain ⟨hw, hn, _⟩ := Hook.work_of_call hc hk
  exact hacc.not_began hi hp (ha.2.exclusive k.lock) hw (hs ▸ hn)
    (Hook.not_closed_of_call hc hk hv hpr (List.mem_of_getElem? hr))

namespace Orderly
variable {x : Execution} {index f i r : Nat} {h : List Entry} {m m' : Memory} {g : Group}
  {marks : List Nat} {w : Execution.World} {es : List Event} {s : Strand Pass.Point Report}
  {p : Pass.Point} {q : Request}

/-- As long as no time has run out, a teardown begins behind the last checkpoint. -/
theorem departed (ho : g.Orderly x index h m marks f)
    (hv : p.Vouched g.iteration.isLast (m.view g.iteration x.site f) f marks) {s : Stage}
    {o : Turn.Point} (ht : p.turn? = some (s, o)) (hd : s.direction = .tearDown) :
    ∀ n ∈ marks, n = 4 :=
  ((hv.turn ht).2.1 hd).resolve_left (Bool.eq_false_iff.mp ho.calm)

/-- Whatever a member calls comes in the order of the lifecycle. -/
theorem lawful_of_call (ho : g.Orderly x index h m marks f) (ha : g.Agreed x index m marks f)
    (hi : g.members[i]? = some s) (hp : s.stand = .point p) (hs : s.calling = false)
    (hc : (x.pass g.iteration i).call? m p = some q) : x.Lawful h (some index) q := by
  obtain ⟨hi', hv, r, hr, hpr⟩ := ha.stance hi hp
  obtain ⟨hP, hA⟩ := ha
  have hmem := List.mem_of_getElem? hi'
  have hrmem := List.mem_of_getElem? hr
  have once (k : Hook) (hk : q.hook? = some k) : ¬ Began h (some index) k :=
    Agreed.not_began ⟨hP, hA⟩ (ho.accounted k) hi hp hs hc hk
  refine ⟨once, ?_, ?_, ?_, ?_⟩
  · rintro rfl
    have hwork := hpr.work (Pass.isWork_of_call hc)
    refine ⟨(ho.staged.past hmem hwork.2).1, fun hb => ?_⟩
    have := ho.tornDown hb r hrmem
    omega
  · intro hk who
    have h4 := ho.departed hv (Pass.turn?_of_call hc hk (by decide)) rfl
    rcases ho.balanced who with hb | ⟨j, t, n, _, _, hn, hlt, _⟩
    · rw [pending_of_departed hP h4 who, Nat.add_zero] at hb
      exact hb.symm
    · have := h4 n (List.mem_of_getElem? hn)
      omega
  · intro hk
    have ht := Pass.turn?_of_call hc hk (by decide)
    obtain ⟨hset, hlast⟩ := (hv.turn ht).2.2 rfl
    have hpast : p.isPast = true := by
      cases p <;> first | rfl | cases ht
    refine ⟨⟨index, rfl, ?_⟩, ?_⟩
    · rw [hP.iteration] at hlast
      exact of_decide_eq_true hlast
    · apply (ho.staged.past hmem hpast).2.resolve_left
      intro hset'
      exact Bool.noConfusion (hset.symm.trans hset')
  · intro _ hb
    obtain ⟨h4, _, hset⟩ := ho.cleaned hb
    obtain ⟨s, hk, rfl | rfl⟩ := Pass.tearDown_of_call hc (h4 r hrmem ▸ hpr)
    · exact (hv.turn (Pass.turn?_of_call hc hk (by decide))).1.1 hset
    · exact once _ hk hb

theorem recent_append {who : Execution.Actor} (hn : ∀ e ∈ h, ∀ i, e.iteration = some i → i ≤ index)
    (hw : w.point.index? = some index) :
    ∀ e ∈ h ++ es.map (w.entry who), ∀ i, e.iteration = some i → i ≤ index := by
  intro e he i hi
  rcases List.mem_append.mp he with he | he
  · exact hn e he i hi
  · obtain ⟨ev, _, rfl⟩ := List.mem_map.mp he
    cases hw.symm.trans hi
    exact Nat.le_refl _

theorem stepped (ho : g.Orderly x index h m marks f) (ha : g.Agreed x index m marks f)
    (hw : w.point.index? = some index) (hi : g.members[i]? = some s) (hp : s.stand = .point p)
    {t : Stand Pass.Point Report} (ht : (x.pass g.iteration i).Step m p m' t)
    (hplayed : (x.pass g.iteration i).Played m s m' es ⟨t, false⟩) (he : ∀ e ∈ es, e.begun? = none)
    (hc : ∀ q s, t = .point q → q.turn? = some (s, .commit) →
      Returned (h ++ es.map (w.entry (.member i))) (some index) s) :
    ∃ marks', { g with members := g.members.set i ⟨t, false⟩ }.Agreed x index m' marks' f ∧
      { g with members := g.members.set i ⟨t, false⟩ }.Orderly x index
        (h ++ es.map (w.entry (.member i))) m' marks' f := by
  have hi' : g.stands[i]? = some (.point p) := hp ▸ getElem?_stands hi
  have hc' : { g with members := g.members.set i ⟨t, false⟩ }.iteration = g.iteration := rfl
  obtain ⟨r, r', hr, hpr, ht', hle, hkeep, ha'⟩ := ha.member hc' hi' ht (stands_set ..) rfl
  obtain ⟨hP, hA⟩ := ha
  have hrmem := List.mem_of_getElem? hr
  have hr' := Pass.passed_le_four ht'
  have hv : p.Vouched g.iteration.isLast (m.view g.iteration x.site f) f marks := hA.vouched hi'
  have hd := hA.deed hi' ht hr hpr
  have hw' (hI : m.isInterrupted g.iteration = true) (n : Nat) (hn : n ∈ marks) : 2 ≤ n :=
    hP.two_le_of_interrupted hI hn
  have hbegan (k : Hook) : Began (h ++ es.map (w.entry (.member i))) (some index) k ↔
      Began h (some index) k :=
    Execution.began_of_quiet he
  -- a fixture is published before any of its hooks is called, and set up before any is torn down
  have hset (h4 : ∀ n ∈ marks, n = 4) : p.turn? ≠ some (⟨.iteration, .setUp⟩, .commit) := by
    intro hs
    have := h4 r hrmem
    rcases hpr.turn hs with ⟨_, h1⟩ | ⟨hdir, _⟩
    · omega
    · cases hdir
  have hpub {n : Nat} (hn : r = n + 1) (value : Nat) : p ≠ .acquire (.publish value) := by
    rintro rfl
    have h0 : r = 0 := hpr
    omega
  refine ⟨marks.set i r', ha', ?_, ho.patient, recent_append ho.recent hw, ?_, ?_, ?_, ?_, ?_⟩
  · exact ht.attended.interrupted.trans ho.calm
  · intro k hb
    refine (ho.accounted k).step hi hp (hA.exclusive k.lock) hd.failed ht.isAtWork
      (ht.hasBegun fun _ => hv.fixture) ?_ ((hbegan k).mp hb)
    intro hb hclosed
    refine (hclosed.deed hd hv hw' (fun hk => hset (ho.tornDown (hk ▸ hb))) ?_).imp_right
      fun hm => ⟨hm.1, Accord.le_of_mem_raised hr hle hm.2⟩
    rintro hm value rfl
    have h0 : r = 0 := hpr
    cases k with
    | construct => cases hm
    | stage s =>
      rcases ho.staged.furnished with ⟨_, _, hn⟩ | ⟨hcl, _⟩
      · exact hn s (fun hs => Bool.false_ne_true (hm.symm.trans (decide_eq_true hs))) hb
      · rcases hcl with hl | ⟨_, h2⟩
        · exact hl hv
        · have := h2 r hrmem
          omega
  · have hst : Staged (Began (h ++ es.map (w.entry (.member i))) (some index))
        (Returned (h ++ es.map (w.entry (.member i))) (some index))
          (m.view g.iteration x.site f) marks g.stands :=
      ho.staged.mono (fun s _ hb => .inl ((hbegan _).mp hb)) fun s hs => hs.append _
    rw [stands_set]
    exact hst.step hA hi' ht hr hpr hle hd hw' hc
  · intro hb
    exact Accord.all_four_raised hr hle hr' (ho.tornDown ((hbegan _).mp hb))
  · intro hb
    obtain ⟨h4, hl, hs⟩ := ho.cleaned ((hbegan _).mp hb)
    refine ⟨Accord.all_four_raised hr hle hr' h4, hl, ?_⟩
    exact hd.settled_tearDown (fun _ => hset h4) (hpub (h4 r hrmem)) hs
  · intro who
    obtain ⟨hlt, _⟩ := List.getElem?_eq_some_iff.mp hr
    exact (ho.balanced who).played hw hi hplayed hr (List.getElem?_set_self hlt)
      (fun j hij => List.getElem?_set_ne hij) (hp ▸ hpr) hkeep

/-- A step that begins no call and changes nothing that members see. -/
theorem kept (ho : g.Orderly x index h m marks f) (hw : w.point.index? = some index)
    {who : Execution.Actor} {g' : Group} (hc : g'.iteration = g.iteration)
    (hs : g'.stands = g.stands) (hpat : g'.conductor.stand ≠ .point .interrupt)
    (hv : m'.view g.iteration x.site f = m.view g.iteration x.site f)
    (he : ∀ e ∈ es, e.begun? = none) (hacc : ∀ k : Hook,
      k.Accounted (Began h (some index) k) (m.view g.iteration x.site f) marks g'.members)
    (hbal : ∀ who', g'.Balanced (h ++ es.map (w.entry who)) index marks who') :
    g'.Orderly x index (h ++ es.map (w.entry who)) m' marks f := by
  have hbegan (k : Hook) : Began (h ++ es.map (w.entry who)) (some index) k ↔
      Began h (some index) k :=
    Execution.began_of_quiet he
  refine ⟨?_, hpat, recent_append ho.recent hw, ?_, ?_,
    fun hb => ho.tornDown ((hbegan _).mp hb), ?_, hbal⟩
  · rw [hc]
    exact (congrArg View.interrupted hv).trans ho.calm
  · intro k hb
    rw [hc, hv]
    exact hacc k ((hbegan k).mp hb)
  · rw [hc, hv, hs]
    exact ho.staged.mono (fun s _ hb => .inl ((hbegan _).mp hb)) fun s hs => hs.append _
  · intro hb
    rw [hc, hv]
    exact ho.cleaned ((hbegan _).mp hb)

theorem called (ho : g.Orderly x index h m marks f) (ha : g.Agreed x index m marks f)
    (hw : w.point.index? = some index) (hi : g.members[i]? = some s) (hp : s.stand = .point p)
    (hs : s.calling = false) (hc : (x.pass g.iteration i).call? m p = some q) :
    { g with members := g.members.set i ⟨.point p, true⟩ }.Orderly x index
      (h ++ [Event.called q].map (w.entry (.member i))) m marks f := by
  obtain ⟨hi', hv, r, hr, hpr⟩ := ha.stance hi hp
  obtain ⟨hlt, _⟩ := List.getElem?_eq_some_iff.mp hi
  have hbegan {k : Hook} (hb : Began (h ++ [Event.called q].map (w.entry (.member i)))
      (some index) k) :
      Began h (some index) k ∨ q.hook? = some k := by
    apply (Execution.began_append.mp hb).imp_right
    rintro ⟨⟨e, he, hk⟩, _⟩
    cases List.mem_singleton.mp he
    exact hk
  refine ⟨ho.calm, ho.patient, recent_append ho.recent hw, ?_, ?_, ?_, ?_, ?_⟩
  · intro k hb
    rcases hbegan hb with hb | hk
    · refine (ho.accounted k).rest hi hp.symm ?_ hb
      intro hbegun
      rw [hp, hs] at hbegun
      exact Hook.hasBegun_calling hbegun
    · exact .inr (.inr ⟨_, List.mem_set hlt _, (Hook.work_of_call hc hk).2.2⟩)
  · rw [stands_set_self hi hp.symm]
    refine ho.staged.mono (fun s hne hb => (hbegan hb).imp_right ?_) fun s hs => hs.append _
    intro hk
    exact ⟨_, List.mem_of_getElem? hi', Pass.isEquipped_of_turn? (Pass.turn?_of_call hc hk hne)⟩
  · intro hb
    rcases hbegan hb with hb | hk
    · exact ho.tornDown hb
    · exact ho.departed hv (Pass.turn?_of_call hc hk (by decide)) rfl
  · intro hb
    rcases hbegan hb with hb | hk
    · exact ho.cleaned hb
    · have ht := Pass.turn?_of_call hc hk (by decide)
      obtain ⟨hset, hlast⟩ := (hv.turn ht).2.2 rfl
      exact ⟨ho.departed hv ht rfl, hlast, hset⟩
  · intro who
    exact (ho.balanced who).played hw hi (.call hp hc hs) hr hr (fun _ _ => rfl)
      (hp ▸ hpr) fun _ => rfl

/-- A step of a member: what it calls is in order, and the group stays orderly. -/
theorem played (ho : g.Orderly x index h m marks f) (ha : g.Agreed x index m marks f)
    (hw : w.point.index? = some index) (hi : g.members[i]? = some s) {s' : Strand Pass.Point Report}
    (hplayed : (x.pass g.iteration i).Played m s m' es s') :
    x.Lawfully h (es.map (w.entry (.member i))) ∧
      ∃ marks', { g with members := g.members.set i s' }.Agreed x index m' marks' f ∧
        { g with members := g.members.set i s' }.Orderly x index (h ++ es.map (w.entry (.member i)))
          m' marks' f := by
  have hplayed' := hplayed
  cases hplayed with
  | @rest p _ _ hp hc hs he =>
    refine ⟨.of_quiet he, marks, ha.rest rfl (stands_set_self hi hs) rfl, ?_⟩
    have hi' := getElem?_stands hi
    obtain ⟨r, hr, hpr⟩ := ha.1.attendance.mark hi'
    refine ho.kept hw rfl (stands_set_self hi hs) ho.patient rfl
      (fun e hmem => Event.begun?_of_quiet (he e hmem))
      (fun k => (ho.accounted k).rest hi hs fun hb => ?_) fun who => ?_
    · rw [hp] at hb
      rw [hs, hp]
      exact Hook.hasBegun_of_quiet hc hb _
    · exact (ho.balanced who).played hw hi hplayed' hr hr (fun _ _ => rfl) hpr fun _ => rfl
  | @act p _ _ t hp hc ht he =>
    refine ⟨.of_quiet he, ho.stepped ha hw hi hp ht hplayed'
      (fun e hmem => Event.begun?_of_quiet (he e hmem)) ?_⟩
    intro o s hto hs
    obtain ⟨value, hcall⟩ :=
      Pass.call?_of_hook (a := x.pass g.iteration i) (m := m) (Pass.Step.commit (hto ▸ ht) hs)
    exact absurd (hc.symm.trans hcall) nofun
  | @call p q hp hc hs =>
    refine ⟨.singleton ?_, marks, ha.rest rfl (stands_set_self hi hp.symm) rfl,
      ho.called ha hw hi hp hs hc⟩
    intro q' hq
    cases hq
    rw [List.append_nil]
    change x.Lawful h w.point.index? q
    rw [hw]
    exact ho.lawful_of_call ha hi hp hs hc
  | @reply p q r k now hp hc hs hk ht hd =>
    refine ⟨.of_no_call ?_, ho.stepped ha hw hi hp ht hplayed' ?_ ?_⟩
    · intro q' hq
      cases List.mem_singleton.mp hq
    · intro e he
      cases List.mem_singleton.mp he
      rfl
    · intro o s hko hs
      obtain ⟨hq, v, rfl⟩ := Pass.commit_of_reply hk ht hko hs
      exact ⟨_, List.mem_append_right _ List.mem_cons_self, hw, q, v, rfl, hq⟩

/-- A step of the conductor that does not find the time to be over. -/
theorem conducted (ho : g.Orderly x index h m marks f) (ha : g.Agreed x index m marks f)
    (hw : w.point.index? = some index) {now : Nat} {s' : Strand Conductor.Point Unit}
    (hadv : g.conductor.Advanced ((x.conductor g.iteration).step now m) m m' es s')
    (hes : ∀ e ∈ es, e.isTimeOut = false) :
    { g with conductor := s' }.Agreed x index m' marks f ∧
      { g with conductor := s' }.Orderly x index (h ++ es.map (w.entry .conductor)) m' marks f := by
  have hquiet := Conductor.quiet_of_advanced hadv
  have hpat : s'.stand ≠ .point .interrupt := fun hs => by
    obtain ⟨e, he, ht⟩ := Conductor.timeOut_of_advanced hadv ho.patient hs
    exact Bool.noConfusion ((hes e he).symm.trans ht)
  have hbal (who : Execution.Actor) :
      { g with conductor := s' }.Balanced (h ++ es.map (w.entry .conductor)) index marks who := by
    apply (ho.balanced who).imp_left
    intro hb
    rw [← hw, Execution.occurred_append, Execution.occurred_append, hw]
    obtain ⟨hcall, hreturn⟩ := Event.countP_of_quiet hquiet
    rw [hcall, hreturn, ite_self, Nat.add_zero, Nat.add_zero]
    exact hb
  have hbegun (e : Event) (he : e ∈ es) : e.begun? = none := Event.begun?_of_quiet (hquiet e he)
  rcases hadv.yields with ⟨rfl, hs⟩ | ⟨p, hp, hy⟩
  · exact ⟨ha.rest rfl rfl hs, ho.kept hw rfl rfl hpat rfl hbegun ho.accounted hbal⟩
  · have ht := Conductor.step_of_yields hy
    refine ⟨ha.conductor rfl rfl hp ht rfl, ho.kept hw rfl rfl hpat ?_ hbegun ho.accounted hbal⟩
    exact (ht.view x.site f).resolve_right fun hc => ho.patient (hc.1 ▸ hp)

end Orderly
end Group

/-! ### Runs -/

namespace Execution
variable {x : Execution} {m : Memory} {h : List Entry} {w w' : World} {index f : Nat}

/-- What is certain when an iteration is launched: nothing was called in it yet, a fixture that was
made is live and not set up for an iteration, and none was cleaned up. -/
structure Launchable (x : Execution) (index : Nat) (h : List Entry) (m : Memory) : Prop where
  clear : m.failing.get x.flag = false
  past : ∀ e ∈ h, ∀ i, e.iteration = some i → i < index
  made : ∀ k : Hook, k.isMaking = true → Began h (some index) k → m.live? x.site ≠ none
  uncleaned : ¬ Began h (some index) (.stage ⟨.trial, .tearDown⟩)
  down : ∀ f, m.live? x.site = some f → m.isReady f ⟨.iteration, .setUp⟩ = false

theorem Launchable.start (hf : m.failing.get x.flag = false)
    (hd : ∀ f, m.live? x.site = some f → m.isReady f ⟨.iteration, .setUp⟩ = false) :
    x.Launchable 0 [] m := by
  have hn (k : Hook) : ¬ Began [] (some 0) k := fun ⟨_, he, _⟩ => List.not_mem_nil he
  exact ⟨hf, fun _ he => absurd he List.not_mem_nil, fun k _ hb => absurd hb (hn k), hn _, hd⟩

theorem Launchable.isOfTrial (hl : x.Launchable index h m) {k : Hook}
    (hb : Began h (some index) k) :
    k.isOfTrial = true := by
  obtain ⟨e, he, _, hk | hi⟩ := hb
  · exact hk
  · exact absurd (hl.past e he _ hi) (Nat.lt_irrefl _)

/-- The hooks of the trial level make the fixture or clean it up. -/
theorem isMaking_of_isOfTrial {k : Hook} (hk : k.isOfTrial = true) :
    k.isMaking = true ∨ k = .stage ⟨.trial, .tearDown⟩ := by
  cases k with
  | construct => exact .inl rfl
  | stage s =>
    obtain ⟨l, d⟩ := s
    cases of_decide_eq_true hk
    cases d with
    | setUp => exact .inl rfl
    | tearDown => exact .inr rfl

theorem Launchable.opening (hl : x.Launchable index h w.memory) (created : Nat) {mask : UInt32}
    {label : String} {b : Bool} (hp : w.point = .launch index mask) :
    ∃ marks f, (x.group (x.iteration index created)).Agreed x index
        { w.memory with
          signals := w.memory.signals.put (x.iteration index created).number { mask } } marks f ∧
      (x.group (x.iteration index created)).Orderly x index
        (h ++ [Event.noted (.startingIteration label index b)].map (w.entry .caller))
        { w.memory with
          signals := w.memory.signals.put (x.iteration index created).number { mask } }
        marks f := by
  have hw : w.point.index? = some index := by rw [hp]; rfl
  have hagreed := Group.Agreed.opening x index created w.memory mask hl.clear
  generalize hm : ({ w.memory with
      signals := w.memory.signals.put (x.iteration index created).number { mask } } : Memory) =
    m' at hagreed ⊢
  have hlive : m'.live? x.site = w.memory.live? x.site := by subst hm; rfl
  have hbegan {k : Hook}
    (hb : Began (h ++ [Event.noted (.startingIteration label index b)].map (w.entry .caller))
      (some index) k) : Began h (some index) k := by
    refine (began_of_quiet ?_).mp hb
    intro e he
    cases List.mem_singleton.mp he
    rfl
  refine ⟨_, _, hagreed, ?_, ?_, ?_, ?_, ⟨?_, ?_, ?_⟩, ?_, ?_, fun who => .inl ?_⟩
  · subst hm
    exact congrArg Signals.interrupted (Table.get_put_self _ _ _)
  · change Stand.point (x.conductor _).start ≠ _
    unfold Conductor.start
    split <;> exact nofun
  · exact Group.Orderly.recent_append (fun e he i hi => Nat.le_of_lt (hl.past e he i hi)) hw
  · intro k hb
    have hb := hbegan hb
    rcases isMaking_of_isOfTrial (hl.isOfTrial hb) with hk | rfl
    · exact .inl (.inl ((Hook.isDone_of_isMaking hk).mpr (hlive ▸ hl.made k hk hb)))
    · exact absurd hb hl.uncleaned
  · cases hlf : w.memory.live? x.site with
    | none =>
      refine .inl ⟨hlive.trans hlf, fun t ht => Group.eq_start_of_mem ht ▸ rfl, fun s hs hb => ?_⟩
      have hb := hbegan hb
      rcases isMaking_of_isOfTrial (hl.isOfTrial hb) with hk | hk
      · exact hs (of_decide_eq_true hk)
      · exact hl.uncleaned (hk ▸ hb)
    | some f =>
      refine .inr ⟨.inl ?_, fun hs => ?_⟩
      · exact fun hn => nomatch (hlive.trans hlf).symm.trans hn
      · rw [Option.getD_some] at hs
        have hs : w.memory.isReady f ⟨.iteration, .setUp⟩ = true := by
          subst hm
          exact hs
        exact Bool.noConfusion ((hl.down f hlf).symm.trans hs)
  · intro p s hp' hs
    cases Group.eq_start_of_mem hp'
    cases hs
  · intro t ht hpast
    rw [Group.eq_start_of_mem ht] at hpast
    cases hpast
  · intro hb
    exact nomatch hl.isOfTrial (hbegan hb)
  · intro hb
    exact absurd (hbegan hb) hl.uncleaned
  · rw [← hw, occurred_append, occurred_append, hw, occurred_eq_zero hl.past,
      occurred_eq_zero hl.past, Group.pending_group]
    rfl

/-- Where the caller stands, as long as no time has run out: it never has to clean up itself. -/
def World.Orderly (x : Execution) (h : List Entry) (w : World) : Prop :=
  match w.point with
  | .launch index _ => x.Launchable index h w.memory
  | .running index g =>
    ∃ marks f, g.Agreed x index w.memory marks f ∧ g.Orderly x index h w.memory marks f
  | .checkInterrupted c _ | .checkFailed c _ => w.memory.hasFailed c = true
  | .cleaning .. => False
  | .clearing .. | .ended .. => True

theorem Launchable.of_all_ok {g : Group} {marks : List Nat} (ho : g.Orderly x index h m marks f)
    (ha : g.Agreed x index m marks f) (he : g.hasEnded = true)
    (hok : ∀ o ∈ g.outcomes, o.isOk = true) (hl : index + 1 ≠ x.trial.iterations) :
    x.Launchable (index + 1) h m := by
  obtain ⟨hclear, _, hset, _, hlive⟩ := ha.of_all_ok he hok
  refine ⟨hclear, fun e hmem i hi => Nat.lt_succ_of_le (ho.recent e hmem i hi), ?_, ?_, ?_⟩
  · intro k _ _
    rw [hlive hl]
    exact nofun
  · intro hb
    obtain ⟨_, hlast, _⟩ := ho.cleaned (hb.of_trial rfl)
    rw [ha.1.iteration] at hlast
    exact hl (of_decide_eq_true hlast)
  · intro f' hf'
    cases hf'.symm.trans (hlive hl)
    exact hset

theorem hasFailed_of_outcome {g : Group} {marks : List Nat} (ho : g.Orderly x index h m marks f)
    (ha : g.Agreed x index m marks f) {e : Failure} (hmem : .failed e ∈ g.outcomes) :
    m.hasFailed g.iteration = true := by
  obtain ⟨i, hi⟩ := List.mem_iff_getElem?.mp (Group.mem_outcomes.mp hmem)
  obtain ⟨r, hr, _⟩ := ha.1.attendance.mark hi
  have he : m.Halted g.iteration := ha.1.excused hi hr
  exact he.resolve_right (Bool.eq_false_iff.mp ho.calm)

theorem World.Orderly.step (hw : w.Orderly x h) {who : Actor} {es : List Event}
    (hc : Changed x w who es w') (hes : who = .conductor → ∀ e ∈ es, e.isTimeOut = false) :
    x.Lawfully h (es.map (w.entry who)) ∧ w'.Orderly x (h ++ es.map (w.entry who)) := by
  unfold World.Orderly at hw
  have index?_eq {index : Nat} {g : Group} (hp : w.point = .running index g) :
      w.point.index? = some index := by
    rw [hp]
    rfl
  cases hc with
  | launch hp =>
    rw [hp] at hw
    exact ⟨.of_no_call (by simp), hw.opening _ hp⟩
  | member hp hi ha =>
    rw [hp] at hw
    obtain ⟨marks, f, hag, ho⟩ := hw
    obtain ⟨hlaw, marks', hag', ho'⟩ := ho.played hag (index?_eq hp) hi (Pass.played_of_advanced ha)
    exact ⟨hlaw, marks', f, hag', ho'⟩
  | conductor hp ha =>
    rw [hp] at hw
    obtain ⟨marks, f, hag, ho⟩ := hw
    obtain ⟨hag', ho'⟩ := ho.conducted hag (index?_eq hp) ha (hes rfl)
    exact ⟨.of_quiet (Conductor.quiet_of_advanced ha), marks, f, hag', ho'⟩
  | @settle index g hp he =>
    rw [hp] at hw
    obtain ⟨marks, f, hag, ho⟩ := hw
    refine ⟨.of_no_call (by simp), ?_⟩
    have hs := x.settled w index g
    rw [List.map_nil, List.append_nil]
    generalize x.settle w index g = w' at hs
    cases hs with
    | crashed | last => trivial
    | secondary hmem | primary hmem => exact hasFailed_of_outcome ho hag hmem
    | next hok hl => exact .of_all_ok ho hag he hok hl
  | checkInterrupted hp =>
    rw [hp] at hw
    exact ⟨.of_no_call (by simp), hw⟩
  | abandon hp => exact ⟨.of_no_call (by simp), trivial⟩
  | clean hp hf =>
    rw [hp] at hw
    exact Bool.noConfusion (hf.symm.trans hw)
  | cleaning hp | cleaned hp | cleanupCrashed hp =>
    rw [hp] at hw
    exact hw.elim
  | @clearing r s s' m es hp ha =>
    obtain ⟨notes, rfl⟩ := Clear.noted ha
    refine ⟨.of_no_call (by simp), ?_⟩
    cases s'.stand.hasEnded <;> trivial

theorem Run.orderly (hr : x.Run m h w) (hl : x.Launchable 0 [] m)
    (ht : ∀ e ∈ h, e.who = .conductor → e.event.isTimeOut = false) :
    x.Lawfully [] h ∧ w.Orderly x h := by
  refine hr.induct (P := fun h w => (∀ e ∈ h, e.who = .conductor → e.event.isTimeOut = false) →
    x.Lawfully [] h ∧ w.Orderly x h) (fun _ => ⟨.nil, ?_⟩) ?_ ht
  · unfold World.Orderly
    rcases x.start_point m with hp | hp <;> rw [hp]
    · exact hl
    · trivial
  · intro h w who es w' _ ih hc ht
    obtain ⟨hlaw, hw⟩ := ih fun e he => ht e (List.mem_append_left _ he)
    obtain ⟨hmore, hw'⟩ := hw.step hc fun hwho e hmem =>
      ht _ (List.mem_append_right _ (List.mem_map_of_mem hmem)) hwho
    exact ⟨Throughout.append hlaw hmore, hw'⟩

/-- Along every run of which no iteration runs out of time, all calls come in the
order of the lifecycle. -/
theorem Run.lawful (hr : x.Run m h w) (hf : m.failing.get x.flag = false)
    (hl : m.live? x.site = none) (ht : ∀ e ∈ h, e.event.isTimeOut = false) :
    x.Prepared h ∧ Throughout (fun past e => ∀ q, e.event = .called q →
      x.Lawful past e.iteration q) h := by
  have hd (f : Nat) (hlf : m.live? x.site = some f) : m.isReady f ⟨.iteration, .setUp⟩ = false := by
    cases hl.symm.trans hlf
  exact ⟨hr.prepared hl, (hr.orderly (.start hf hd) fun e he _ => ht e he).1⟩

theorem lawful_duet :
    ∃ past e rest, (duet.play (rounds 77 (.returned 0)) (duet.start {})).1 = past ++ e :: rest ∧
      e.event.begun? = some (.stage ⟨.trial, .tearDown⟩) ∧
        Returned past e.iteration ⟨.iteration, .tearDown⟩ ∧
        ¬ Began past e.iteration (.stage ⟨.trial, .tearDown⟩) := by
  have hr := run_play duet {} (rounds 77 (.returned 0))
  have ht : (duet.play (rounds 77 (.returned 0)) (duet.start {})).1.all
      (fun e => e.event.isTimeOut = false) = true := by decide +kernel
  have hbegun : (duet.play (rounds 77 (.returned 0)) (duet.start {})).1.any
      (fun e => e.event.begun? = some (.stage ⟨.trial, .tearDown⟩)) = true := by decide +kernel
  obtain ⟨e, he, hb⟩ := List.any_eq_true.mp hbegun
  obtain ⟨past, rest, hsplit⟩ := List.append_of_mem he
  have hb := of_decide_eq_true hb
  obtain ⟨_, hlaw⟩ := hr.lawful (by decide) (by decide) fun e he =>
    of_decide_eq_true (List.all_eq_true.mp ht e he)
  refine ⟨past, e, rest, hsplit, hb, ?_⟩
  cases hev : e.event with
  | called q =>
    rw [hev] at hb
    have hq := hlaw past e rest hsplit q hev
    exact ⟨(hq.cleanup hb).2, hq.once _ hb⟩
  | noted n | answered q r =>
    rw [hev] at hb
    cases hb

end Execution
end LoadBench
