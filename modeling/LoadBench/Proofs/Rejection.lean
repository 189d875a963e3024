import LoadBench.Proofs.Subgroups

/-!
# The end of a trial with several subgroups

As soon as a member without a role has had two turns the trial is failing, and from then on every
step leads down: nobody passes the first rendezvous, and whoever waits there gives up after its next
look at the failure flag. So until the trial is failing the first member without a role takes the
lead, and afterwards anybody who has a step (`Execution.World.Barred.descent`). With what is known
of where everybody stands this settles what becomes of such a trial (`Execution.Run.rejected`).
-/

namespace LoadBench

variable {now : Nat} {m m' : Memory}

theorem Acquire.Point.rank_pos (p : Acquire.Point) : 0 < p.rank := by cases p <;> simp [rank]

theorem Acquire.Point.rank_le (p : Acquire.Point) : p.rank ≤ 8 := by cases p <;> simp [rank]

namespace Pass
variable {a : Pass} {p q : Point} {site : Site} {told : Mishap → Prop} {k : Nat}

/-- How far a member has to go in a failing trial if nobody passes the first rendezvous. -/
def Point.retreat : Point → Nat
  | .begin => 15
  | .acquire p => 6 + p.rank
  | .arrive _ .announce => 6
  | .arrive _ (.waiting p) => 1 + p.untilFailed
  | .reject => 2
  | .fail .. | .condemn .. => 1
  | _ => 0

theorem Point.retreat_le (p : Point) : p.retreat ≤ 15 := by
  cases p with
  | acquire p => exact Nat.le_trans (Nat.add_le_add_left p.rank_le 6) (by decide)
  | arrive f p =>
    cases p with
    | announce => simp [retreat]
    | waiting p => exact Nat.le_trans (Nat.add_le_add_left p.untilFailed_le 1) (by decide)
  | _ => simp [retreat]

/-- A member that has no fixture to get goes down at every step, even as long as the
trial is not failing. -/
theorem retreats_outside (hp : p = .begin ∨ p = .reject)
    (h : (a.step now m p).Yields m m' (.point q)) :
    q.retreat < p.retreat := by
  have hs := step_of_yields h
  rcases hp with rfl | rfl
  · cases hs <;> simp [Point.retreat, Acquire.Point.rank]
  · cases hs
    simp [Point.retreat]

/-- A barred member goes down at every step once the trial is failing. -/
theorem Barred.retreats (hp : Barred site told k (.point p)) (hf : m.hasFailed a.iteration = true)
    (h : (a.step now m p).Yields m m' (.point q)) : q.retreat < p.retreat := by
  cases p with
  | begin => exact retreats_outside (.inl rfl) h
  | reject => exact retreats_outside (.inr rfl) h
  | acquire p =>
    obtain ⟨u, hu, hq⟩ := Move.yields_andThen.mp h
    have hpos := p.rank_pos
    cases u with
    | point u =>
      cases hq
      exact Nat.add_lt_add_left (Acquire.step_of_yields hu).descends 6
    | ended o =>
      have hle : q.retreat ≤ 6 := by cases o <;> cases hq <;> simp [Point.retreat]
      exact Nat.lt_of_le_of_lt hle (Nat.lt_add_of_pos_right hpos)
  | arrive f p =>
    obtain ⟨u, hu, hq⟩ := Move.yields_andThen.mp h
    cases p with
    | announce =>
      cases hu.2
      cases hq
      simp [Point.retreat, Wait.start, Wait.Point.untilFailed]
    | waiting p =>
      obtain ⟨v, hv, rfl⟩ := Move.yields_andThen.mp hu
      cases v with
      | point v =>
        cases hq
        exact Nat.add_lt_add_left (Wait.descends_of_failed hf hv) 1
      | ended o =>
        have hpos : 0 < p.untilFailed := by cases p <;> simp [Wait.Point.untilFailed]
        have hle : q.retreat ≤ 1 := by cases o <;> cases hq <;> simp [Point.retreat]
        exact Nat.lt_of_le_of_lt hle (Nat.lt_add_of_pos_right hpos)
  | fail phase e | condemn phase text => cases h.2
  | _ => exact hp.elim

end Pass

namespace Conductor
variable {c : Conductor} {p q : Point}

/-- How far a conductor has to go in a failing trial if not everybody enters the warmup loop. -/
def Point.retreat : Point → Nat
  | .gather p => 4 + p.untilFailed
  | .spoilWarmup => 4
  | .spoilWindow | .freeWarmup => 3
  | .spoil | .freeWindow => 2
  | .spoilWarmdown | .freeWarmdown => 1
  | _ => 0

theorem Point.retreat_le (p : Point) : p.retreat ≤ 8 := by
  cases p with
  | gather p => exact Nat.add_le_add_left p.untilFailed_le 4
  | _ => simp [retreat]

theorem retreats (hk : c.Knows m (.point p)) (hf : m.hasFailed c.iteration = true)
    (hn : c.hasWarmLoops = true → (m.signalsOf c.iteration).warmupReady < c.iteration.threads)
    (h : (c.step now m p).Yields m m' (.point q)) : q.retreat < p.retreat := by
  cases p with
  | gather p =>
    obtain ⟨u, hu, hq⟩ := Move.yields_andThen.mp h
    cases u with
    | point u =>
      cases hq
      exact Nat.add_lt_add_left (Wait.descends_of_failed hf hu) 4
    | ended o =>
      have hpos : 0 < p.untilFailed := by cases p <;> simp [Wait.Point.untilFailed]
      have hle : q.retreat ≤ 4 := by cases o <;> cases hq <;> simp [Point.retreat]
      exact Nat.lt_of_le_of_lt hle (Nat.lt_add_of_pos_right hpos)
  | spoilWarmup | spoilWindow | spoil | freeWarmup | freeWindow =>
    cases h.2
    simp [Point.retreat]
  | spoilWarmdown | freeWarmdown => cases h.2
  | _ => exact absurd hk.2.2 (Nat.not_le.mpr (hn hk.1))

end Conductor

/-! ### Groups -/

namespace Group

/-- How far a stalled group has to go once the trial is failing. -/
def retreat (g : Group) : Nat :=
  Pool.rank Pass.Point.retreat g.members + g.conductor.rank Conductor.Point.retreat

theorem retreat_le (g : Group) : g.retreat ≤ 32 * g.members.length + 18 :=
  Nat.add_le_add (Pool.rank_le Pass.Point.retreat_le _)
    (Strand.rank_le Conductor.Point.retreat_le _)

/-- How far the first member without a role has to go. -/
def lag (x : Execution) (g : Group) : Nat :=
  match g.members[x.share]? with
  | some s => s.rank Pass.Point.retreat
  | none => 0

theorem lag_le (x : Execution) (g : Group) : g.lag x ≤ 32 := by
  unfold lag
  split
  · exact Strand.rank_le Pass.Point.retreat_le _
  · exact Nat.zero_le _

namespace Stalled
variable {x : Execution} {g : Group} {told : Mishap → Prop} {i : Nat}
  {s s' : Strand Pass.Point Report} {es : List Event}

/-- As long as the trial is not failing, the first member without a role has not said so. -/
theorem lagging (hg : g.Stalled x m told) (hx : x.Divided) (hf : m.hasFailed g.iteration = false) :
    ∃ p, g.stands[x.share]? = some (.point p) ∧ (p = .begin ∨ p = .reject) := by
  obtain ⟨marks, f, ha, hA, hb⟩ := hg
  have hlt : x.share < g.stands.length := ha.1.length ▸ hx.share_lt
  have hi := List.getElem?_eq_getElem hlt
  have hbar := hb.stands hi
  have hnoted := hA.noted _ (List.mem_of_getElem? hi)
  rw [hx.seat_share] at hbar
  generalize g.stands[x.share] = t at hi hbar hnoted
  have guilty {o : Outcome Report} (ho : TurnedAway x.site told 1 o) : ¬ o.Noted m g.iteration := by
    cases ho with
    | aborted hs | denied hs => cases hs
    | misplaced _ ho =>
      rw [ho]
      exact fun hn => hn.elim nofun (Bool.eq_false_iff.mp hf)
  cases t with
  | ended o => exact absurd hnoted (guilty hbar)
  | point p =>
    cases p with
    | begin => exact ⟨_, hi, .inl rfl⟩
    | reject => exact ⟨_, hi, .inr rfl⟩
    | acquire p => cases hbar.1
    | arrive => cases hbar
    | fail phase e => exact absurd hnoted (guilty hbar)
    | condemn phase text =>
      cases (hbar : TurnedAway x.site told 1 (.crashed text : Outcome Report)) with
      | aborted hs | denied hs => cases hs
      | misplaced _ ho => cases ho
    | _ => exact hbar.elim

theorem lag_pos (hg : g.Stalled x m told) (hx : x.Divided) (hf : m.hasFailed g.iteration = false) :
    0 < g.lag x := by
  obtain ⟨p, hi, _⟩ := hg.lagging hx hf
  obtain ⟨s, hs, hsp⟩ : ∃ s, g.members[x.share]? = some s ∧ s.stand = .point p := by
    simpa [stands] using hi
  unfold lag
  rw [hs]
  exact Strand.rank_pos (congrArg Stand.hasEnded hsp)

theorem member_retreats (hg : g.Stalled x m told) (hf : m.hasFailed g.iteration = true)
    (hi : g.members[i]? = some s) (ha : s.Advanced ((x.pass g.iteration i).step now m) m m' es s') :
    { g with members := g.members.set i s' }.retreat < g.retreat := by
  obtain ⟨marks, f, _, _, hb⟩ := hg
  refine Nat.add_lt_add_right (Pool.rank_set_lt hi (ha.rank_lt fun p m' q hp hy => ?_)) _
  exact (hb.stands (hp ▸ getElem?_stands hi)).retreats hf hy

theorem conductor_retreats {s' : Strand Conductor.Point Unit} (hg : g.Stalled x m told)
    (hx : x.Divided) (hf : m.hasFailed g.iteration = true)
    (ha : g.conductor.Advanced ((x.conductor g.iteration).step now m) m m' es s') :
    { g with conductor := s' }.retreat < g.retreat := by
  obtain ⟨marks, f, hag, _, hb⟩ := hg
  refine Nat.add_lt_add_left (ha.rank_lt fun p m' q hp hy => ?_) _
  refine Conductor.retreats (hp ▸ hag.1.knows) hf (fun hwarm => ?_) hy
  exact Nat.lt_of_lt_of_eq (hb.short hag.1 hx (k := .warmup) hwarm)
    (congrArg Quantity.val hag.1.threads.symm)

/-- As long as the trial is not failing, every step of the first member without
a role leads it down. -/
theorem lag_lt (hg : g.Stalled x m told) (hx : x.Divided) (hf : m.hasFailed g.iteration = false)
    (hi : g.members[x.share]? = some s)
    (ha : s.Advanced ((x.pass g.iteration x.share).step now m) m m' es s') :
    { g with members := g.members.set x.share s' }.lag x < g.lag x := by
  obtain ⟨p, hp, hout⟩ := hg.lagging hx hf
  have hsp : s.stand = .point p := Option.some.inj ((getElem?_stands hi).symm.trans hp)
  obtain ⟨hlt, _⟩ := List.getElem?_eq_some_iff.mp hi
  have hset : (g.members.set x.share s')[x.share]? = some s' := List.getElem?_set_self hlt
  unfold lag
  rw [hset, hi]
  refine ha.rank_lt fun p' m' q hp' hy => ?_
  cases hsp.symm.trans hp'
  exact Pass.retreats_outside hout hy

theorem lag_set_ne (hi : i ≠ x.share) (s' : Strand Pass.Point Report) :
    { g with members := g.members.set i s' }.lag x = g.lag x := by
  unfold lag
  rw [List.getElem?_set_ne hi]

end Stalled
end Group

/-! ### Trials -/

namespace Execution
variable {x : Execution} {h : List Entry} {w w' : World} {who lead : Actor} {es : List Event}

def World.isHealthy (w : World) : Bool :=
  match w.point with
  | .running _ g => !w.memory.hasFailed g.iteration
  | _ => false

def World.retreat (x : Execution) (w : World) : Nat :=
  match w.point with
  | .launch .. => 35 + (32 * x.threads.val + 18 + 33)
  | .running _ g =>
    35 + if w.memory.hasFailed g.iteration then g.retreat else 32 * x.threads.val + 18 + g.lag x
  | _ => w.rank

namespace World.Barred

/-- An iteration is launched, or somebody of its group has not ended yet, or the caller is alone and
the trial is failing. -/
theorem cases_on (hx : x.Divided) (hw : w.Barred x h) :
    (∃ mask, w.point = .launch 0 mask) ∨
      (∃ g, w.point = .running 0 g ∧ g.Stalled x w.memory (Told h) ∧ g.hasEnded = false) ∨
        w.Alone x ∧ w.isHealthy = false := by
  unfold World.Barred at hw
  unfold World.Alone isHealthy
  cases hp : w.point with
  | launch index mask =>
    rw [hp] at hw
    exact .inl ⟨mask, by rw [hw.1]⟩
  | running index g =>
    rw [hp] at hw
    obtain ⟨rfl, hg⟩ := hw
    cases he : g.hasEnded with
    | true => exact .inr (.inr ⟨he, by simp [(hg.failed_of_ended hx he).1]⟩)
    | false => exact .inr (.inl ⟨g, rfl, hg, he⟩)
  | checkFailed | ended => exact .inr (.inr ⟨trivial, rfl⟩)
  | checkInterrupted | cleaning =>
    rw [hp] at hw
    exact hw.elim
  | clearing r s =>
    rw [hp] at hw
    exact .inr (.inr ⟨⟨hw.2.1, hw.2.2.2⟩, rfl⟩)

/-- The first member without a role takes the lead until the trial is failing, and then
anybody who has a step. -/
def Leads (x : Execution) (w : World) (who : Actor) : Prop :=
  w.Able x who ∧ (w.isHealthy = true → who = .member x.share)

theorem exists_lead (hx : x.Divided) (hw : w.Barred x h) (ho : w.outcome? = none) :
    ∃ who : Actor, who.Of x ∧ Leads x w who := by
  rcases hw.cases_on hx with ⟨mask, hp⟩ | ⟨g, hp, hg, he⟩ | ⟨halone, hh⟩
  · refine ⟨.caller, trivial, fun now v => ⟨_, _, by simp only [advance, advanceCaller, hp]; rfl⟩,
      fun hs => ?_⟩
    simp [isHealthy, hp] at hs
  · cases hf : w.memory.hasFailed g.iteration with
    | false =>
      obtain ⟨p, hi, hout⟩ := hg.lagging hx hf
      refine ⟨.member x.share, hx.share_lt, World.member_able hp hi fun now hb => ?_, fun _ => rfl⟩
      rcases hout with rfl | rfl <;> cases hb
    | true =>
      have hh : w.isHealthy = false := by simp [isHealthy, hp, hf]
      cases hc : g.conductor.stand.hasEnded with
      | false =>
        have hcond : w.isConducted = true := by simp [isConducted, hp, hc]
        exact ⟨.conductor, trivial, World.conductor_able hcond, by simp [hh]⟩
      | true =>
        obtain ⟨marks, f, ha, hA, _⟩ := hg
        obtain ⟨who, hof, hable⟩ := World.exists_member_able hp hA.kept ha.1.length hc he
        exact ⟨who, hof, hable, by simp [hh]⟩
  · exact ⟨.caller, trivial, fun now v => halone.able ho now (.returned v), by simp [hh]⟩

/-- Whoever leads a trial that is not failing still leads it after a step of somebody else. -/
theorem leads_on (hx : x.Divided) (hw : w.Barred x h) (hh : w.isHealthy = true) :
    Leads x w (.member x.share) := by
  have ho : w.outcome? = none := by
    unfold isHealthy at hh
    unfold World.outcome?
    split at hh
    · rename_i hp
      rw [hp]
    · cases hh
  obtain ⟨who, _, hlead⟩ := hw.exists_lead hx ho
  exact hlead.2 hh ▸ hlead

/-- What a step inside a stalled group does to how far there is to go. -/
theorem down_running {g g' : Group} (hx : x.Divided) (hp : w.point = .running 0 g)
    (hp' : w'.point = .running 0 g') (hw' : w'.Barred x (h ++ es.map (w.entry who)))
    (hg : g.Stalled x w.memory (Told h)) (hc : g'.iteration = g.iteration)
    (hl : g'.members.length = g.members.length) (hmono : w.memory.hasFailed g.iteration = true →
      w'.memory.hasFailed g.iteration = true)
    (hdown : w.memory.hasFailed g.iteration = true → g'.retreat < g.retreat)
    (hlag : w.memory.hasFailed g.iteration = false →
      g'.lag x < g.lag x ∨ who ≠ .member x.share ∧ g'.lag x = g.lag x) (hlead : Leads x w lead) :
    w'.retreat x < w.retreat x ∨ who ≠ lead ∧ w'.retreat x = w.retreat x ∧ Leads x w' lead := by
  have hlen : g'.members.length = x.threads.val := by
    obtain ⟨marks, f, ha, _, _⟩ := hg
    exact hl.trans ((List.length_map Strand.stand).symm.trans ha.1.length)
  unfold World.retreat
  simp only [hp, hp', hc]
  cases hf : w.memory.hasFailed g.iteration with
  | true =>
    have hlt := hdown hf
    left
    simp only [hmono hf, if_true]
    omega
  | false =>
    cases hf' : w'.memory.hasFailed g.iteration with
    | true =>
      -- the step has made the trial fail
      have hle := g'.retreat_le
      have hpos := hg.lag_pos hx hf
      left
      simp only [if_true, Bool.false_eq_true, if_false]
      rw [hlen] at hle
      omega
    | false =>
      simp only [Bool.false_eq_true, if_false]
      rcases hlag hf with hlt | ⟨hne, heq⟩
      · exact .inl (by omega)
      · have hh : w.isHealthy = true := by simp [isHealthy, hp, hf]
        have hh' : w'.isHealthy = true := by simp [isHealthy, hp', hc, hf']
        cases hlead.2 hh
        exact .inr ⟨hne, by rw [heq], hw'.leads_on hx hh'⟩

theorem down (hx : x.Divided) (hw : w.Barred x h) (hc : Changed x w who es w')
    (hlead : Leads x w lead) :
    w'.retreat x < w.retreat x ∨ who ≠ lead ∧ w'.retreat x = w.retreat x ∧ Leads x w' lead := by
  have hw' := hw.step hx hc
  cases hc with
  | @launch index now mask hp =>
    left
    have hlen : (x.group (x.iteration index now)).members.length = x.threads.val := by simp [group]
    have hle := (x.group (x.iteration index now)).retreat_le
    have hlag := (x.group (x.iteration index now)).lag_le x
    rw [hlen] at hle
    simp only [World.retreat, hp]
    split <;> omega
  | @member i index now g s s' m es hp hi ha =>
    obtain ⟨rfl, hg⟩ := hw.running hp
    refine down_running hx hp rfl hw' hg rfl (List.length_set ..) (fun hf => ?_)
      (fun hf => hg.member_retreats hf hi ha) (fun hf => ?_) hlead
    · rcases ha.yields with ⟨rfl, _⟩ | ⟨p, _, hy⟩
      · exact hf
      · exact (Pass.step_of_yields hy).later.failed hf
    · by_cases his : i = x.share
      · subst his
        exact .inl (hg.lag_lt hx hf hi ha)
      · exact .inr ⟨fun hc => his (Actor.member.inj hc), Group.Stalled.lag_set_ne his s'⟩
  | @conductor index now g s' m es hp ha =>
    obtain ⟨rfl, hg⟩ := hw.running hp
    refine down_running hx hp rfl hw' hg rfl rfl (fun hf => ?_)
      (fun hf => hg.conductor_retreats hx hf ha) (fun _ => .inr ⟨Actor.noConfusion, rfl⟩) hlead
    rcases ha.yields with ⟨rfl, _⟩ | ⟨p, _, hy⟩
    · exact hf
    · exact ((Conductor.step_of_yields hy).hasFailed _).trans hf
  | @settle index g hp he =>
    left
    have hs := x.settled w index g
    generalize x.settle w index g = w' at hs hw'
    cases hs with
    | next => cases hw'.1
    | _ => simp [World.retreat, World.rank, hp, clearSite, Strand.rank, Clear.Point.rank] <;> omega
  | abandon hp hf =>
    left
    simp [World.retreat, World.rank, hp, clearSite, Strand.rank, Clear.Point.rank]
  | @clearing r s s' m es hp ha =>
    left
    have hclear := hw
    unfold World.Barred at hclear
    rw [hp] at hclear
    have halone : w.Alone x := by
      unfold World.Alone
      rw [hp]
      exact ⟨hclear.2.1, hclear.2.2.2⟩
    have hlt := halone.descends (.clearing hp ha)
    have hrank : w.retreat x = w.rank := by simp only [World.retreat, hp]
    rw [hrank]
    cases hs : s'.stand with
    | point p =>
      rw [hs] at hlt
      exact hlt
    | ended o =>
      rw [hs] at hlt
      exact hlt
  | clean hp hf =>
    unfold World.Barred at hw
    rw [hp] at hw
    exact Bool.noConfusion (hf.symm.trans hw.1)
  | checkInterrupted hp | cleaning hp | cleaned hp | cleanupCrashed hp =>
    unfold World.Barred at hw
    rw [hp] at hw
    exact hw.elim

theorem descent (hx : x.Divided) :
    x.Descent (fun _ => True) (fun h w => w.Barred x h) (World.retreat x) (Leads x) where
  step hw hc _ := hw.step hx hc
  down hw hc hlead := hw.down hx hc hlead
  able _ hlead := hlead.1
  exists_lead hw ho := hw.exists_lead hx ho

end World.Barred

/-- A trial that is to run in several subgroups, at a site that nobody else uses, is always
rejected, whatever its calls come to and in whatever order everybody acts. If the threads cannot be
divided among the subgroups it crashes before anything is touched. Otherwise each subgroup is made
up of equally many consecutive threads; nothing is called but the construction of the fixture and
its set-up for the trial, only the first iteration is begun, and nobody in it has a result. When the
trial has ended the site is vacant, and what is reported is that the second subgroup has no role,
unless a mishap of the construction was told of and is reported instead. And it does end, once
everybody has been served often enough. -/
theorem Run.rejected {m : Memory} (hr : x.Run m h w) (hs : 2 ≤ x.trial.subgroups.val)
    (hf : m.failing.get x.flag = false) (hm : m.Quiet x.site) :
    (x.Uneven → h = [] ∧
      w = { memory := m, reports := [], point := .ended (.crashed groupMessage) }) ∧ (¬ x.Uneven →
        (0 < x.share ∧ ((List.range x.threads).map fun i => (x.seat i).subgroup) =
          (List.range x.trial.subgroups).flatMap fun j => List.replicate x.share j) ∧
        (∀ e ∈ h, ∀ q, e.event = .called q → q.Makes ∨ ∃ d, q = .sleep d) ∧
        (∀ index g, w.point = .running index g → index = 0 ∧ ∀ o ∈ g.outcomes, o.isOk = false) ∧
        (∀ r, w.outcome? = some r → w.memory.live? x.site = none ∧ x.Rejection h r) ∧
        ∃ n, ∀ rounds : List (List (Actor × Nat × Reply)), n ≤ rounds.length →
          (∀ r ∈ rounds, x.Serves r) → ∃ r, (x.play rounds.flatten w).2.outcome? = some r) := by
  refine ⟨hr.of_uneven, fun he => ?_⟩
  have hx : x.Divided := ⟨hs, he⟩
  have hw := hr.barred hx hf hm
  refine ⟨⟨hx.share_pos, hx.seats⟩, fun e hmem q hq => hr.makes hx hf hm hmem hq,
    fun index g hp => ?_, fun r hout => ?_, w.retreat x, fun rounds hn hrounds => ?_⟩
  · obtain ⟨h0, marks, f, _, _, hb⟩ := hw.running hp
    exact ⟨h0, fun o ho => hb.no_result ho⟩
  · unfold World.Barred at hw
    rw [World.point_of_outcome? hout] at hw
    exact ⟨hw.2, hw.1⟩
  · exact ((World.Barred.descent hx).ends hw hn (fun _ _ _ _ _ _ _ _ _ _ => trivial) hrounds).2

def apart : Execution := { duet with trial := { duet.trial with subgroups := duet.threads } }

theorem rejected_apart :
    ((List.range 2).map fun i => (apart.seat i).subgroup) = [0, 1] ∧
      (apart.play (rounds 30 (.returned 0)) (apart.start {})).2.outcome? =
        some (.failed (.subgroupWithoutRole 1)) ∧
      (apart.play (rounds 30 (.returned 0)) (apart.start {})).2.memory.live? apart.site = none := by
  have hr := run_play apart {} (rounds 30 (.returned 0))
  have hh : (apart.play (rounds 30 (.returned 0)) (apart.start {})).1.all
      (fun e => e.event.isMishap = false) = true :=
    by decide +kernel
  have hend : (apart.play (rounds 30 (.returned 0)) (apart.start {})).2.outcome?.isSome = true := by
    decide +kernel
  obtain ⟨r, hout⟩ := Option.isSome_iff_exists.mp hend
  have heven : ¬ apart.Uneven := by
    unfold Uneven
    decide
  obtain ⟨⟨_, hseats⟩, _, _, hover, _⟩ := (hr.rejected (by decide) rfl (.of_vacant rfl rfl)).2 heven
  obtain ⟨hv, rfl | ⟨y, ⟨e, he, q, _, hq⟩, _⟩⟩ := hover r hout
  · exact ⟨hseats, hout, hv⟩
  · have hm := of_decide_eq_true (List.all_eq_true.mp hh e he)
    rw [hq] at hm
    cases y <;> cases hm

end Execution
end LoadBench
